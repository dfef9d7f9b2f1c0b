import Mathlib
import StateDatabase.UndoneRows
import StateDatabase.CountRuns

/-!
# Iterators and undo

`keyval_cache` holds the addresses of rows.  `undo` works on the database and
does not know the cache.  An iterator denotes the row that it was issued for as
long as no undo takes the row away, or gives it the key of another row.
-/

namespace StateDatabase

open Programs GenericIndex

theorem onRegistered_indexList {τ : Type} [DecidableEq τ] {F : IndexFamily τ}
    {database final : Database F} {t : τ} {α : Type} {value : α}
    {program : IndexM (F.indexType t) α}
    (ran : Database.onRegistered t program database = .ok value final) :
    final.indexList = database.indexList := by
  rw [Database.onRegistered, bind_apply_of_ok _ (get_apply database)] at ran
  split at ran
  · unfold Database.onIndex at ran
    split at ran
    · cases ran
    · split at ran
      · cases ran
        rfl
      · cases ran
  · cases ran

theorem RowSteps.indexList_eq {before after : Database eosDbTables}
    (steps : RowSteps before after) :
    after.indexList = before.indexList := by
  induction steps with
  | refl => rfl
  | tail _ step inductionHypothesis =>
      rw [← inductionHypothesis]
      cases step with
      | create _ success => exact onRegistered_indexList success
      | modify _ _ success => exact onRegistered_indexList success
      | remove _ success => exact onRegistered_indexList success

namespace EosDb

variable {eos final : EosDb} {ndebug : Bool}

/-! ## Issued iterators -/

/-- The table and the primary key that a call looks for or stores. -/
def keyOfCall (eos : EosDb) : EosCall → Option (Int64 × UInt64)
  | .dbStoreI64 code scope table _ id _ _ =>
      (eos.tableNamed (code, scope, table)).map fun tab => (tab.id, id)
  | .dbFindI64 code scope table id =>
      (eos.tableNamed (code, scope, table)).map fun tab => (tab.id, id)
  | _ => none

/-- The entries of `keyval_cache`. -/
def keyvalEntries (eos : EosDb) : List (Option Address) :=
  (eos.caches .keyValue).iteratorToObject

/-- A new entry of `keyval_cache` is issued for the key of the call. -/
def issuedAfter (issued : List (Int64 × UInt64)) (before after : EosDb)
    (call : EosCall) : List (Int64 × UInt64) :=
  if before.keyvalEntries.length < after.keyvalEntries.length then
    issued ++ (after.keyOfCall call).toList
  else issued

/-- Every entry that is not null refers to a stored row, which has the table and
the primary key that the iterator was issued for. -/
def EntriesDenote (eos : EosDb) (issued : List (Int64 × UInt64)) : Prop :=
  ∀ (position : Nat) (address : Address),
    eos.keyvalEntries[position]? = some (some address) →
      ∃ (id : Int64) (row : KeyValueObject),
        (eos.db.rows .keyValue).rows[id]? = some row ∧
        eos.place .keyValue id = address ∧
        issued[position]? = some row.scopePrimary

/-- The iterators denote what they were issued for, and the cache agrees with
itself. -/
structure Faithful (eos : EosDb) (issued : List (Int64 × UInt64)) :
    Prop where
  ready : eos.db.Ready
  nodup : eos.db.indexList.Nodup
  apart : eos.Apart .keyValue
  mirrored : (eos.caches .keyValue).Mirrored
  lengths : issued.length = eos.keyvalEntries.length
  entries : eos.EntriesDenote issued

variable {issued : List (Int64 × UInt64)} {call : EosCall}

theorem issuedAfter_of_length
    (same : final.keyvalEntries.length = eos.keyvalEntries.length) :
    issuedAfter issued eos final call = issued := by
  rw [issuedAfter, if_neg (by omega)]

theorem issuedAfter_of_key {key : Int64 × UInt64}
    (isKey : final.keyOfCall call = some key) :
    issuedAfter issued eos final call =
      if eos.keyvalEntries.length < final.keyvalEntries.length then
        issued ++ [key]
      else issued := by
  rw [issuedAfter, isKey]
  rfl

/-- No entry is new, and the rows behind the entries keep their keys. -/
theorem Faithful.kept (faithful : Faithful eos issued) (final : EosDb)
    (ready : final.db.Ready)
    (sameList : final.db.indexList = eos.db.indexList)
    (apart : final.Apart .keyValue)
    (mirrored : (final.caches .keyValue).Mirrored)
    (lengths : final.keyvalEntries.length = eos.keyvalEntries.length)
    (entries : ∀ (position : Nat) (address : Address),
      final.keyvalEntries[position]? = some (some address) →
        eos.keyvalEntries[position]? = some (some address) ∧
        ∀ (id : Int64) (row : KeyValueObject),
          (eos.db.rows .keyValue).rows[id]? = some row →
          eos.place .keyValue id = address →
            HasRow (fun left : KeyValueObject =>
                left.scopePrimary = row.scopePrimary) id
              (final.db.rows .keyValue) ∧
            final.place .keyValue id = address) :
    Faithful final issued where
  ready := ready
  nodup := sameList ▸ faithful.nodup
  apart := apart
  mirrored := mirrored
  lengths := faithful.lengths.trans lengths.symm
  entries := by
    intro position address live
    obtain ⟨wasLive, keeps⟩ := entries position address live
    obtain ⟨id, row, found, isAddress, isKey⟩ :=
      faithful.entries position address wasLive
    obtain ⟨⟨left, isLeft, sameKey⟩, stays⟩ := keeps id row found isAddress
    exact ⟨id, left, isLeft, stays, by rw [isKey, sameKey]⟩

/-- The rows, the addresses and the entries are as before. -/
theorem Faithful.unchanged (faithful : Faithful eos issued) (final : EosDb)
    (ready : final.db.Ready)
    (sameList : final.db.indexList = eos.db.indexList)
    (rows : final.db.rows .keyValue = eos.db.rows .keyValue)
    (place : final.place .keyValue = eos.place .keyValue)
    (mirrored : (final.caches .keyValue).Mirrored)
    (entries : final.keyvalEntries = eos.keyvalEntries) :
    Faithful final issued := by
  apply faithful.kept final ready sameList _ mirrored (by rw [entries])
  · intro position address live
    rw [entries] at live
    refine ⟨live, ?_⟩
    intro id row found isAddress
    rw [rows, place]
    exact ⟨⟨row, found, rfl⟩, isAddress⟩
  · intro left right isLeft isRight same
    rw [rows] at isLeft isRight
    rw [place] at same
    exact faithful.apart left right isLeft isRight same

/-- A row is stored in a vacant block; it is not in the cache yet. -/
theorem Faithful.rowStored (faithful : Faithful eos issued)
    {obj : KeyValueObject} {inserted : MultiIndex keyValueIndex}
    {address : Address} (stored : EosDb)
    (vacant : eos.Vacant .keyValue address)
    (success : (eos.db.rows .keyValue).emplace obj = some inserted)
    (ready : stored.db.Ready)
    (sameList : stored.db.indexList = eos.db.indexList)
    (rows : stored.db.rows .keyValue = inserted)
    (place : stored.place .keyValue =
      Function.update (eos.place .keyValue) obj.id address)
    (caches : stored.caches = eos.caches) :
    Faithful stored issued := by
  obtain ⟨absent, entries⟩ := MultiIndex.emplace_some success
  have sameEntries : stored.keyvalEntries = eos.keyvalEntries := by
    rw [keyvalEntries, caches]
    rfl
  apply faithful.kept stored ready sameList
  · intro left right isLeft isRight same
    rw [rows, entries] at isLeft isRight
    rw [place] at same
    by_cases leftNew : obj.id = left
    · by_cases rightNew : obj.id = right
      · rw [← leftNew, ← rightNew]
      · rw [if_neg rightNew] at isRight
        rw [← leftNew, Function.update_self,
          Function.update_of_ne (Ne.symm rightNew)] at same
        exact absurd same.symm (vacant.ne isRight)
    · rw [if_neg leftNew] at isLeft
      by_cases rightNew : obj.id = right
      · rw [← rightNew, Function.update_self,
          Function.update_of_ne (Ne.symm leftNew)] at same
        exact absurd same (vacant.ne isLeft)
      · rw [if_neg rightNew] at isRight
        rw [Function.update_of_ne (Ne.symm leftNew),
          Function.update_of_ne (Ne.symm rightNew)] at same
        exact faithful.apart left right isLeft isRight same
  · rw [caches]
    exact faithful.mirrored
  · rw [sameEntries]
  · intro position tested live
    rw [sameEntries] at live
    refine ⟨live, ?_⟩
    intro id row found isAddress
    have different : obj.id ≠ id := by
      intro same
      rw [← same] at found
      rw [found] at absent
      cases absent
    rw [rows, place, Function.update_of_ne (Ne.symm different)]
    exact ⟨⟨row, by rw [entries, if_neg different, found], rfl⟩, isAddress⟩

theorem cleared_length {position : Nat} {address : Address}
    (isCache : final.caches .keyValue =
      (eos.caches .keyValue).cleared position address) :
    final.keyvalEntries.length = eos.keyvalEntries.length := by
  rw [keyvalEntries, isCache]
  exact List.length_set

/-- A row goes, and its entry becomes null. -/
theorem Faithful.rowRemoved (faithful : Faithful eos issued) (final : EosDb)
    {position : Nat} {address : Address} {id : Int64}
    (live : eos.keyvalEntries[position]? = some (some address))
    (isAddress : eos.place .keyValue id = address)
    (ready : final.db.Ready)
    (sameList : final.db.indexList = eos.db.indexList)
    (rows : final.db.rows .keyValue = (eos.db.rows .keyValue).erase id)
    (place : final.place .keyValue = eos.place .keyValue)
    (cache : final.caches .keyValue =
      (eos.caches .keyValue).cleared position address) :
    Faithful final issued := by
  apply faithful.kept final ready sameList
  · apply faithful.apart.of_subset
    intro tested stored
    rw [rows, MultiIndex.erase_row] at stored
    refine ⟨?_, by rw [place]⟩
    intro absent
    rw [absent, ite_self] at stored
    exact stored rfl
  · rw [cache]
    exact faithful.mirrored.clear live
  · exact cleared_length cache
  · intro tested other isLive
    rw [keyvalEntries, cache, IteratorCache.cleared_entry] at isLive
    obtain ⟨notCleared, wasLive⟩ := isLive
    refine ⟨wasLive, ?_⟩
    intro otherId row found isOther
    have different : id ≠ otherId := by
      intro same
      have sameAddress : address = other := by
        rw [← isAddress, ← isOther, same]
      rw [← sameAddress] at wasLive
      exact notCleared (faithful.mirrored.unique live wasLive)
    rw [rows, place]
    exact ⟨⟨row, by rw [MultiIndex.erase_row, if_neg different, found], rfl⟩,
      isOther⟩

/-- The state after `add`. -/
def withObject (eos : EosDb) (id : Int64) : EosDb :=
  { eos with
    caches := Function.update eos.caches .keyValue
      ((eos.caches .keyValue).add (eos.place .keyValue id)).2 }

theorem withObject_cache (id : Int64) :
    (eos.withObject id).caches .keyValue =
      ((eos.caches .keyValue).add (eos.place .keyValue id)).2 := by
  simp only [withObject, Function.update_self]

theorem addObject_apply (id : Int64) :
    addObject .keyValue id eos =
      .ok ((eos.caches .keyValue).add (eos.place .keyValue id)).1
        (eos.withObject id) := rfl

/-- The state after `remove` of an iterator. -/
def withoutObject (eos : EosDb) (position : Nat) (address : Address) : EosDb :=
  { eos with
    caches := Function.update eos.caches .keyValue
      ((eos.caches .keyValue).cleared position address) }

theorem withoutObject_cache (position : Nat) (address : Address) :
    (eos.withoutObject position address).caches .keyValue =
      (eos.caches .keyValue).cleared position address := by
  simp only [withoutObject, Function.update_self]

theorem removeIterator_apply {position : Nat} {address : Address}
    (live : eos.keyvalEntries[position]? = some (some address)) :
    removeIterator ndebug .keyValue position eos =
      .ok ⟨⟩ (eos.withoutObject position address) := by
  rw [removeIterator, bind_apply_of_ok _ (get_apply _)]
  simp only [IteratorCache.remove_of_live live]
  rfl

/-- A stored row is added to the cache. -/
theorem Faithful.withObject (faithful : Faithful eos issued) {id : Int64}
    {row : KeyValueObject}
    (found : (eos.db.rows .keyValue).rows[id]? = some row) :
    Faithful (eos.withObject id)
      (if eos.keyvalEntries.length < (eos.withObject id).keyvalEntries.length
        then issued ++ [row.scopePrimary] else issued) := by
  by_cases live : ∃ position : Nat, eos.keyvalEntries[position]? =
      some (some (eos.place .keyValue id))
  · obtain ⟨position, isLive⟩ := live
    have sameCache := faithful.mirrored.add_of_live isLive
    have isSame : eos.withObject id = eos := by
      simp only [EosDb.withObject, sameCache, Function.update_eq_self]
    rw [isSame, if_neg (by omega)]
    exact faithful
  · have isNew : (eos.caches .keyValue).Misses (eos.place .keyValue id) :=
      fun position isLive => live ⟨position, isLive⟩
    have pushes := faithful.mirrored.add_of_new isNew
    have isCache : (eos.withObject id).caches .keyValue =
        (eos.caches .keyValue).pushed (eos.place .keyValue id) := by
      rw [withObject_cache, pushes]
    have isLength : (eos.withObject id).keyvalEntries.length =
        eos.keyvalEntries.length + 1 := by
      rw [keyvalEntries, isCache]
      simp [IteratorCache.pushed, keyvalEntries]
    rw [if_pos (by omega)]
    refine ⟨faithful.ready, faithful.nodup, faithful.apart, ?_, ?_, ?_⟩
    · rw [isCache]
      exact faithful.mirrored.push isNew
    · rw [isLength, List.length_append, faithful.lengths]
      rfl
    · intro position address isLive
      rw [keyvalEntries, isCache, IteratorCache.pushed_entry] at isLive
      rcases isLive with wasLive | ⟨isLast, rfl⟩
      · obtain ⟨other, otherRow, isOther, isAddress, isKey⟩ :=
          faithful.entries position address wasLive
        refine ⟨other, otherRow, isOther, isAddress, ?_⟩
        rw [List.getElem?_append_left, isKey]
        exact (List.getElem?_eq_some_iff.mp isKey).1
      · refine ⟨id, row, found, rfl, ?_⟩
        have last : position = issued.length :=
          isLast.trans faithful.lengths.symm
        rw [last, List.getElem?_concat_length]

/-- The program leaves faithful iterators behind, unless it ends the
process. -/
def LeavesFaithful {α : Type} (issued : List (Int64 × UInt64))
    (call : EosCall) (program : EosDbM α) (eos : EosDb) : Prop :=
  Ends program eos
    (fun _ final => Faithful final (issuedAfter issued eos final call))
    (fun fault final => fault.isException = true →
      Faithful final (issuedAfter issued eos final call))

/-- The state after `cache_table`. -/
def withTable (eos : EosDb) (tab : Int64) : EosDb :=
  { eos with
    caches := Function.update eos.caches .keyValue
      ((eos.caches .keyValue).cacheTable tab (eos.place .tableId tab)).2 }

theorem withTable_cache (tab : Int64) :
    (eos.withTable tab).caches .keyValue =
      ((eos.caches .keyValue).cacheTable tab (eos.place .tableId tab)).2 := by
  simp only [withTable, Function.update_self]

theorem cacheTable_apply (tab : Int64) :
    cacheTable .keyValue tab eos =
      .ok ((eos.caches .keyValue).cacheTable tab (eos.place .tableId tab)).1
        (eos.withTable tab) := rfl

/-- The table is cached, whether or not it has the row. -/
theorem dbFindI64_of_tableNamed {code : Name} {scope : Sha256} {table : Name}
    {id : UInt64} {tab : TableIdObject} (ready : eos.db.Ready)
    (named : eos.tableNamed (code, scope, table) = some tab) :
    dbFindI64 code scope table id eos =
      match (eos.db.rows .keyValue).findBy KeyValueObject.scopePrimary
        (tab.id, id) with
      | none =>
          .ok ((eos.caches .keyValue).cacheTable tab.id
            (eos.place .tableId tab.id)).1 (eos.withTable tab.id)
      | some row => addObject .keyValue row.id (eos.withTable tab.id) := by
  have lookup : (eos.db.rows .tableId).findBy TableIdObject.codeScopeTable
      (code, scope, table) = some tab := named
  have stillReady : (eos.withTable tab.id).db.Ready := ready
  have rows : indices .keyValue (eos.withTable tab.id) =
      .ok (eos.db.rows .keyValue) (eos.withTable tab.id) :=
    indices_apply stillReady .keyValue
  rw [dbFindI64, bind_apply_of_ok _ (findTable_apply ready code scope table),
    lookup]
  apply (bind_apply_of_ok _ (cacheTable_apply tab.id)).trans
  apply (bind_apply_of_ok _ rows).trans
  cases (eos.db.rows .keyValue).findBy KeyValueObject.scopePrimary
      (tab.id, id) with
  | none => rfl
  | some row => rfl

@[simp]
theorem withTable_entries (tab : Int64) :
    (eos.withTable tab).keyvalEntries = eos.keyvalEntries := by
  rw [keyvalEntries, withTable_cache,
    IteratorCache.cacheTable_iteratorToObject]
  rfl

theorem Faithful.withTable (faithful : Faithful eos issued) (tab : Int64) :
    Faithful (eos.withTable tab) issued := by
  apply faithful.unchanged (eos.withTable tab) faithful.ready rfl rfl rfl
  · rw [withTable_cache]
    exact faithful.mirrored.cacheTable _ _
  · exact withTable_entries tab

section Calls

variable {code : Name} {scope : Sha256} {table payer : Name} {id : UInt64}
  {buffer : Bytes} {iterator : Int} {memory : Memory}

theorem leavesFaithful_dbFindI64 (faithful : Faithful eos issued) :
    LeavesFaithful issued (.dbFindI64 code scope table id)
      (dbFindI64 code scope table id) eos := by
  apply ends_bind
  apply ends_of_ok (findTable_apply faithful.ready code scope table)
  cases named : (eos.db.rows .tableId).findBy TableIdObject.codeScopeTable
      (code, scope, table) with
  | none =>
      apply ends_pure
      rw [issuedAfter_of_length rfl]
      exact faithful
  | some tab =>
      have isCached := faithful.withTable tab.id
      apply ends_bind
      apply ends_of_ok (cacheTable_apply tab.id)
      apply ends_bind
      apply ends_of_ok (indices_apply isCached.ready .keyValue)
      cases looked : ((eos.withTable tab.id).db.rows .keyValue).findBy
          KeyValueObject.scopePrimary (tab.id, id) with
      | none =>
          apply ends_pure
          rw [issuedAfter_of_length (by rw [withTable_entries])]
          exact isCached
      | some obj =>
          obtain ⟨found, isKey⟩ := MultiIndex.findBy_some looked
          have isAdded := isCached.withObject found
          rw [isKey, withTable_entries] at isAdded
          have isNamed : eos.tableNamed (code, scope, table) = some tab := named
          have ofCall : ((eos.withTable tab.id).withObject obj.id).keyOfCall
              (.dbFindI64 code scope table id) = some (tab.id, id) := by
            change Option.map _ (eos.tableNamed (code, scope, table)) = _
            rw [isNamed]
            rfl
          apply ends_of_ok (addObject_apply obj.id)
          rw [issuedAfter_of_key ofCall]
          exact isAdded

/-- The row that `db_store_i64` builds for a table. -/
def newKeyValue (payer : Name) (id : UInt64) (buffer : Bytes) (tab : Int64) :
    KeyValueObject :=
  { id := id.toInt64
    tId := tab
    primaryKey := id
    payer := payer
    value := buffer }

/-- A table and a row are cached, one after the other. -/
theorem withTable_withObject (stored : EosDb) {tab row : Int64}
    {tableAddress rowAddress : Address}
    (isTable : stored.place .tableId tab = tableAddress)
    (isRow : stored.place .keyValue row = rowAddress) :
    (stored.withTable tab).withObject row =
      { stored with
        caches := Function.update stored.caches .keyValue
          (cachedRow (stored.caches .keyValue) tab tableAddress
            rowAddress).2 } := by
  simp only [withObject, withTable, cachedRow, isTable, isRow,
    Function.update_idem, Function.update_self]

/-- A table is found or created; the rows are as before. -/
theorem ends_findOrCreateTable_rows {block : Block} (ready : eos.db.Ready) :
    Ends (findOrCreateTable code scope table payer block) eos
      (fun tab located => located.db.Ready ∧
        located.HasName tab (code, scope, table) ∧
        located.db.rows .keyValue = eos.db.rows .keyValue ∧
        located.place .keyValue = eos.place .keyValue ∧
        located.caches = eos.caches)
      (fun _ left => left = eos) := by
  cases named : (eos.db.rows .tableId).findBy TableIdObject.codeScopeTable
      (code, scope, table) with
  | some existing =>
      apply ends_of_ok (findOrCreateTable_found ready named)
      exact ⟨ready, hasName_of_tableNamed named, rfl, rfl, rfl⟩
  | none =>
      cases attempt : (eos.db.rows .tableId).emplace
          (newTable code scope table payer [] block) with
      | none =>
          exact ends_of_error (findOrCreateTable_refused ready named attempt) rfl
      | some tables =>
          obtain ⟨db, creates, wrote⟩ :=
            findOrCreateTable_created ready named attempt
          apply ends_of_ok creates
          refine ⟨wrote.ready,
            ⟨newTable code scope table payer [] block, ?_, rfl⟩, ?_, ?_, rfl⟩
          · change (db.rows .tableId).rows[block.unset]? = _
            rw [wrote.rows, Function.update_self,
              (MultiIndex.emplace_some attempt).2]
            exact if_pos rfl
          · change db.rows .keyValue = _
            rw [wrote.rows, Function.update_of_ne (by decide)]
          · change placed eos.place .tableId block.unset block.address
              .keyValue = _
            rw [placed_other_type eos.place (by decide)]

theorem tableNamed_of_hasName {tab : Int64} {name : TableName}
    (hasName : eos.HasName tab name) :
    ∃ tableObj, eos.tableNamed name = some tableObj ∧ tableObj.id = tab := by
  cases named : eos.tableNamed name with
  | none => exact absurd hasName (not_hasName_of_tableNamed named tab)
  | some tableObj =>
      exact ⟨tableObj, rfl,
        (hasName_of_tableNamed named).id_unique hasName⟩

/-- The row is stored and counted, and then cached. -/
theorem dbStoreI64_stored {tab : Int64} {middle : EosDb}
    {inserted : MultiIndex keyValueIndex}
    (located : findOrCreateTable code scope table payer memory.table eos =
      .ok tab middle)
    (ready : middle.db.Ready)
    (hasName : middle.HasName tab (code, scope, table))
    (success : (middle.db.rows .keyValue).emplace
      (newKeyValue payer id buffer tab) = some inserted) :
    ∃ value stored, dbStoreI64 code scope table payer id buffer memory eos =
        .ok value ((EosDb.withTable stored tab).withObject id.toInt64) ∧
      stored.db.Ready ∧ stored.HasName tab (code, scope, table) ∧
      stored.db.rows .keyValue = inserted ∧
      stored.place .keyValue = Function.update (middle.place .keyValue)
        id.toInt64 memory.row.address ∧
      stored.caches = middle.caches := by
  obtain ⟨tableObj, hasTable, isName⟩ := hasName
  obtain ⟨db, counted, stores, finalReady, isRows, entries⟩ :
      ∃ db counted, storeRow .keyValue code scope table payer
        (newKeyValue payer id buffer) memory eos = _ ∧ _ :=
    storeRow_ok located ready hasTable success
  have sameTable : placed middle.place .keyValue id.toInt64
      memory.row.address .tableId tab = middle.place .tableId tab := by
    rw [placed_other_type middle.place (by decide)]
  have isFinal := withTable_withObject
    { middle with
      db := db
      place := placed middle.place .keyValue id.toInt64 memory.row.address }
    sameTable (placed_self middle.place .keyValue id.toInt64 memory.row.address)
  refine ⟨_, _, stores.trans (congrArg _ isFinal.symm), finalReady,
    ⟨{ tableObj with count := tableObj.count + 1 }, ?_, isName⟩, ?_, ?_, rfl⟩
  · change (db.rows .tableId).rows[tab]? = _
    rw [isRows, Function.update_self, entries, if_pos rfl]
  · change db.rows .keyValue = _
    rw [isRows, Function.update_of_ne (by decide), Function.update_self]
  · change placed middle.place .keyValue id.toInt64 memory.row.address
      .keyValue = _
    rw [placed, Function.update_self]

theorem leavesFaithful_dbStoreI64 (faithful : Faithful eos issued)
    (vacant : eos.Vacant .keyValue memory.row.address) :
    LeavesFaithful issued (.dbStoreI64 code scope table payer id buffer memory)
      (dbStoreI64 code scope table payer id buffer memory) eos := by
  have lists : Steps (dbStoreI64 code scope table payer id buffer memory)
      eos _ := steps_dbStoreI64 faithful.ready
  have locates : Ends (findOrCreateTable code scope table payer memory.table)
      eos _ _ := ends_findOrCreateTable_rows faithful.ready
  cases located : findOrCreateTable code scope table payer memory.table eos with
  | error fault left =>
      have same := locates.of_error located
      subst same
      apply ends_of_error (storeRow_error located)
      rw [issuedAfter_of_length rfl]
      exact fun _ => faithful
  | ok tab middle =>
      obtain ⟨ready, hasName, sameRows, samePlace, sameCaches⟩ :=
        locates.of_ok located
      have sameEntries : middle.keyvalEntries = eos.keyvalEntries := by
        rw [keyvalEntries, sameCaches]
        rfl
      cases attempt : (middle.db.rows .keyValue).emplace
          (newKeyValue payer id buffer tab) with
      | none =>
          have refuses : storeRow .keyValue code scope table payer
              (newKeyValue payer id buffer) memory eos = _ :=
            storeRow_refused located ready attempt
          have failed := lists.of_error refuses
          apply ends_of_error refuses
          rw [issuedAfter_of_length (by rw [sameEntries])]
          intro _
          apply faithful.unchanged middle ready failed.2.indexList_eq sameRows
            samePlace _ sameEntries
          rw [sameCaches]
          exact faithful.mirrored
      | some inserted =>
          obtain ⟨value, stored, stores, storedReady, storedName, storedRows,
            storedPlace, storedCaches⟩ :=
            dbStoreI64_stored located ready hasName attempt
          have sameList := (lists.of_ok stores).1.indexList_eq
          rw [sameRows] at attempt
          rw [samePlace] at storedPlace
          rw [sameCaches] at storedCaches
          have isStored := faithful.rowStored stored vacant attempt storedReady
            sameList storedRows storedPlace storedCaches
          have found : (stored.db.rows .keyValue).rows[id.toInt64]? =
              some (newKeyValue payer id buffer tab) := by
            rw [storedRows, (MultiIndex.emplace_some attempt).2]
            exact if_pos rfl
          have isAdded := (isStored.withTable tab).withObject found
          have before : (stored.withTable tab).keyvalEntries =
              eos.keyvalEntries := by
            rw [withTable_entries, keyvalEntries, storedCaches]
            rfl
          rw [before] at isAdded
          obtain ⟨named, isNamed, isTab⟩ := tableNamed_of_hasName storedName
          have ofCall : ((stored.withTable tab).withObject
              id.toInt64).keyOfCall
                (.dbStoreI64 code scope table payer id buffer memory) =
              some (tab, id) := by
            change Option.map _ (stored.tableNamed (code, scope, table)) = _
            rw [isNamed, Option.map_some, isTab]
          apply ends_of_ok stores
          rw [issuedAfter_of_key ofCall]
          exact isAdded

/-- The row that an iterator leads to stands at the address in its entry. -/
theorem reads_getObject_place (ready : eos.db.Ready) :
    Reads (getObject ndebug .keyValue iterator) eos
      (fun obj => ∃ (position : Nat) (address : Address),
        iterator = position ∧
        eos.keyvalEntries[position]? = some (some address) ∧
        (eos.db.rows .keyValue).rows[obj.id]? = some obj ∧
        eos.place .keyValue obj.id = address) := by
  apply ends_bind
  apply ends_of_ok (get_apply eos)
  apply ends_bind
  apply (reads_ofExcept fun _ => get_fault).imp
  · rintro address middle ⟨rfl, got⟩
    obtain ⟨position, isPosition, live⟩ := IteratorCache.get_ok got
    apply (reads_objectAt_place ready .keyValue address).imp
    · rintro obj final ⟨rfl, found, isAddress⟩
      exact ⟨rfl, position, address, isPosition, live, found, isAddress⟩
    · exact fun _ _ endsProcess => endsProcess
  · exact fun _ _ endsProcess => endsProcess

theorem leavesFaithful_dbUpdateI64 (faithful : Faithful eos issued) :
    LeavesFaithful issued (.dbUpdateI64 iterator payer buffer)
      (dbUpdateI64 ndebug iterator payer buffer) eos := by
  have lists : Loose (dbUpdateI64 ndebug iterator payer buffer) eos _ :=
    loose_dbUpdateI64 faithful.ready
  have reads : Reads (getObject ndebug .keyValue iterator) eos _ :=
    reads_getObject_place faithful.ready
  cases got : getObject ndebug .keyValue iterator eos with
  | error fault left =>
      apply ends_of_error (bind_apply_of_error _ got)
      intro isException
      rw [reads.of_error got] at isException
      cases isException
  | ok obj left =>
      obtain ⟨same, position, address, _, _, found, _⟩ := reads.of_ok got
      subst same
      obtain ⟨db, modified, changes, wrote, entries⟩ :=
        modify_of_interchangeable (t := .keyValue)
          (fun o => { o with value := buffer, payer := payer }) faithful.ready
          found (interchangeable_keyValue obj payer buffer)
      have updates := (bind_apply_of_ok (fun obj : KeyValueObject =>
        updateI64Row obj.id payer buffer) got).trans changes
      have sameList := (lists.of_ok updates).1.indexList_eq
      have isRows : db.rows .keyValue = modified := by
        rw [wrote.rows, Function.update_self]
      have sameIssued : issuedAfter issued left { left with db := db }
          (.dbUpdateI64 iterator payer buffer) = issued :=
        issuedAfter_of_length rfl
      apply ends_of_ok updates
      rw [sameIssued]
      apply faithful.kept _ wrote.ready sameList _ faithful.mirrored rfl
      · intro position address live
        refine ⟨live, ?_⟩
        intro id row isRow isAddress
        refine ⟨?_, isAddress⟩
        change HasRow _ id (db.rows .keyValue)
        rw [isRows]
        by_cases equal : obj.id = id
        · rw [equal, isRow] at found
          cases found
          exact ⟨_, (entries id).trans (if_pos equal), rfl⟩
        · exact ⟨row, (entries id).trans ((if_neg equal).trans isRow), rfl⟩
      · apply faithful.apart.of_subset
        intro id stored
        refine ⟨?_, rfl⟩
        change (db.rows .keyValue).rows[id]? ≠ none at stored
        rw [isRows, entries] at stored
        by_cases equal : obj.id = id
        · rw [← equal, found]
          exact Option.some_ne_none obj
        · rwa [if_neg equal] at stored

/-- A table that changes stays stored. -/
theorem stored_replaced_iff {tables : MultiIndex tableIdMultiIndex}
    {tab : Int64} {tableObj new : TableIdObject}
    (hasTable : (eos.db.rows .tableId).rows[tab]? = some tableObj)
    (entries : ∀ tested : Int64, tables.rows[tested]? =
      if tab = tested then some new
      else (eos.db.rows .tableId).rows[tested]?) (tested : Int64) :
    tables.rows[tested]? ≠ none ↔
      (eos.db.rows .tableId).rows[tested]? ≠ none := by
  rw [entries]
  by_cases same : tab = tested
  · rw [if_pos same, ← same, hasTable]
    exact ⟨fun _ => Option.some_ne_none tableObj,
      fun _ => Option.some_ne_none new⟩
  · rw [if_neg same]

/-- The row goes; tables may go or change. -/
theorem removeI64Row_exact {row tab : Int64} {obj : KeyValueObject}
    {tableObj : TableIdObject} (ready : eos.db.Ready)
    (found : (eos.db.rows .keyValue).rows[row]? = some obj)
    (hasTable : (eos.db.rows .tableId).rows[tab]? = some tableObj) :
    ∃ db, removeI64Row row tab eos = .ok ⟨⟩ { eos with db := db } ∧
      db.Ready ∧ db.rows .keyValue = (eos.db.rows .keyValue).erase row ∧
      (∀ t, t ≠ .keyValue → t ≠ .tableId → db.rows t = eos.db.rows t) ∧
      ∀ tested : Int64, (db.rows .tableId).rows[tested]? =
        if tab = tested then
          if tableObj.count - 1 = 0 then none
          else some { tableObj with count := tableObj.count - 1 }
        else (eos.db.rows .tableId).rows[tested]? := by
  obtain ⟨db, counted, drops, dropReady, isRows, entries⟩ :=
    dropRow_ok (r := .keyValue) ready found hasTable
  have isCounted : db.rows .tableId = counted := by
    rw [isRows, Function.update_of_ne (by decide), Function.update_self]
  have isTable : (db.rows .tableId).rows[tab]? =
      some { tableObj with count := tableObj.count - 1 } := by
    rw [isCounted, entries, if_pos rfl]
  have isErased : db.rows .keyValue = (eos.db.rows .keyValue).erase row := by
    rw [isRows, Function.update_self]
  have otherRows : ∀ t, t ≠ .keyValue → t ≠ .tableId →
      db.rows t = eos.db.rows t := by
    intro t notRows notTables
    rw [isRows, Function.update_of_ne notRows, Function.update_of_ne notTables]
  have looks : indices .tableId { eos with db := db } = _ :=
    indices_apply dropReady .tableId
  have runs : removeI64Row row tab eos = _ :=
    (bind_apply_of_ok _ drops).trans (bind_apply_of_ok _ looks)
  have hit : (db.rows .tableId).find tab =
      some { tableObj with count := tableObj.count - 1 } := isTable
  simp only [hit] at runs
  by_cases last : tableObj.count - 1 = 0
  · obtain ⟨final, removes, wrote⟩ :
        ∃ final, remove .tableId tab { eos with db := db } = _ ∧ _ :=
      remove_of_row dropReady isTable
    rw [if_pos last, removes] at runs
    refine ⟨final, runs, wrote.ready, ?_, ?_, ?_⟩
    · rw [wrote.rows, Function.update_of_ne (by decide)]
      exact isErased
    · intro t notRows notTables
      rw [wrote.rows, Function.update_of_ne notTables]
      exact otherRows t notRows notTables
    · intro tested
      rw [wrote.rows, Function.update_self, MultiIndex.erase_row, if_pos last,
        isCounted, entries]
      by_cases same : tab = tested
      · rw [if_pos same, if_pos same]
      · rw [if_neg same, if_neg same, if_neg same]
  · rw [if_neg last] at runs
    refine ⟨db, runs, dropReady, isErased, otherRows, ?_⟩
    intro tested
    rw [isCounted, entries, if_neg last]

theorem removeI64Row_rows {row tab : Int64} {obj : KeyValueObject}
    {tableObj : TableIdObject} (ready : eos.db.Ready)
    (found : (eos.db.rows .keyValue).rows[row]? = some obj)
    (hasTable : (eos.db.rows .tableId).rows[tab]? = some tableObj) :
    ∃ db, removeI64Row row tab eos = .ok ⟨⟩ { eos with db := db } ∧
      db.Ready ∧ db.rows .keyValue = (eos.db.rows .keyValue).erase row ∧
      ∀ tested : Int64, (db.rows .tableId).rows[tested]? ≠ none →
        (eos.db.rows .tableId).rows[tested]? ≠ none := by
  obtain ⟨db, removes, removeReady, isErased, _, entries⟩ :=
    removeI64Row_exact ready found hasTable
  refine ⟨db, removes, removeReady, isErased, ?_⟩
  intro tested stored gone
  rw [entries] at stored
  split at stored
  · rename_i same
    rw [← same, hasTable] at gone
    cases gone
  · exact stored gone

theorem leavesFaithful_dbRemoveI64 (faithful : Faithful eos issued) :
    LeavesFaithful issued (.dbRemoveI64 iterator)
      (dbRemoveI64 ndebug iterator) eos := by
  have endsProcess : ∀ {fault : Fault} {left : EosDb},
      fault.isException = false → fault.isException = true →
        Faithful left (issuedAfter issued eos left (.dbRemoveI64 iterator)) := by
    intro fault left isFault isException
    rw [isFault] at isException
    cases isException
  apply ends_bind
  apply (reads_getObject_place faithful.ready).imp
  · rintro obj middle ⟨rfl, position, address, rfl, live, found, isAddress⟩
    apply ends_bind
    apply (reads_getTable .keyValue obj.tId).imp
    · rintro tableAddress _ ⟨rfl, _⟩
      apply ends_bind
      apply (reads_objectAt faithful.ready .tableId tableAddress).imp
      · rintro tableObj eos ⟨rfl, hasTable⟩
        obtain ⟨db, removes, ready, isErased, _⟩ :=
          removeI64Row_rows faithful.ready found hasTable
        have steps : Steps (removeI64Row obj.id tableObj.id) eos _ :=
          steps_removeI64Row faithful.ready found hasTable
        have sameList := (steps.of_ok removes).1.indexList_eq
        have clears : removeIterator ndebug .keyValue position
            { eos with db := db } = _ := removeIterator_apply live
        have isCache : (EosDb.withoutObject { eos with db := db } position
            address).caches .keyValue =
            (eos.caches .keyValue).cleared position address :=
          withoutObject_cache position address
        have removed := faithful.rowRemoved
          (EosDb.withoutObject { eos with db := db } position address)
          live isAddress ready sameList isErased rfl isCache
        apply ends_bind
        apply ends_of_ok removes
        apply ends_of_ok clears
        rw [issuedAfter_of_length (cleared_length isCache)]
        exact removed
      · exact fun _ _ => endsProcess
    · exact fun _ _ => endsProcess
  · exact fun _ _ => endsProcess

end Calls

/-! ## Sessions -/

/-- The calls on sessions that change no row. -/
theorem leavesFaithful_onDatabase {α : Type}
    {program : Database.DatabaseM eosDbTables α}
    (leaves : Database.LeavesRows program) (faithful : Faithful eos issued) :
    LeavesFaithful issued call (onDatabase program) eos := by
  apply ends_zoom
  apply (leaves eos.db faithful.ready).imp
  · intro _ db same
    have sameIssued :
        issuedAfter issued eos { eos with db := db } call = issued :=
      issuedAfter_of_length rfl
    rw [sameIssued]
    exact faithful.unchanged { eos with db := db } same.ready same.indexList
      (congrFun same.rows .keyValue) rfl faithful.mirrored rfl
  · intro _ _ endsProcess isException
    rw [endsProcess] at isException
    cases isException

/-- The rows that an undo does not erase stay where they are, and no two rows
share an address afterwards. -/
def Relocates (eos : EosDb)
    (place : (t : TableType) → (indexOf t).Id → Address) : Prop :=
  (∀ entry ∈ (eos.db.rows .keyValue).rows.toList,
    (∀ head ∈ (eos.db.index .keyValue).stack.head?, entry.1 ∉ head.newIds) →
      place .keyValue entry.1 = eos.place .keyValue entry.1) ∧
  match Database.undo eos.db with
  | .error _ _ => True
  | .ok _ restored =>
      ∀ left ∈ (restored.rows .keyValue).rows.toList,
        ∀ right ∈ (restored.rows .keyValue).rows.toList,
          place .keyValue left.1 = place .keyValue right.1 → left.1 = right.1

instance (eos : EosDb)
    (place : (t : TableType) → (indexOf t).Id → Address) :
    Decidable (eos.Relocates place) := by
  unfold Relocates
  cases Database.undo eos.db with
  | ok _ restored => infer_instance
  | error _ _ => infer_instance

/-- An undo leaves the rows alone that have an iterator: none of them was
created in the session, and none has an old value with another key. -/
def Spares (eos : EosDb) : Prop :=
  ∀ entry ∈ (eos.db.rows .keyValue).rows.toList,
    some (eos.place .keyValue entry.1) ∈ eos.keyvalEntries →
      ∀ head ∈ (eos.db.index .keyValue).stack.head?,
        entry.1 ∉ head.newIds ∧
        ∀ item ∈ head.oldValues.toList, item.2.id = entry.1 →
          item.2.scopePrimary = entry.2.scopePrimary

instance (eos : EosDb) : Decidable eos.Spares := by
  unfold Spares
  infer_instance

theorem leavesFaithful_undo
    {place : (t : TableType) → (indexOf t).Id → Address}
    (faithful : Faithful eos issued) (relocates : eos.Relocates place)
    (spares : eos.Spares) :
    LeavesFaithful issued (.undo place) (restore Database.undo place) eos := by
  have undoes := faithful.ready.ends_undo faithful.nodup
  cases undone : Database.undo eos.db with
  | error fault left =>
      apply ends_of_error (bind_apply_of_error _ (onDatabase_error undone))
      intro isException
      rw [undoes.of_error undone] at isException
      cases isException
  | ok result restored =>
      obtain ⟨ready, sameList, rows⟩ := undoes.of_ok undone
      have restores : restore Database.undo place eos =
          .ok ⟨⟩ { eos with db := restored, place := place } :=
        bind_apply_of_ok _ (onDatabase_ok undone)
      obtain ⟨stays, apart⟩ := relocates
      rw [undone] at apart
      have sameIssued : issuedAfter issued eos
          { eos with db := restored, place := place } (.undo place) = issued :=
        issuedAfter_of_length rfl
      apply ends_of_ok restores
      rw [sameIssued]
      apply faithful.kept { eos with db := restored, place := place } ready
        sameList _ faithful.mirrored rfl
      · intro position address live
        refine ⟨live, ?_⟩
        intro id row found isAddress
        have member := (Maps.mem_map_toList _ _ _).mpr found
        have hasIterator : some (eos.place .keyValue id) ∈
            eos.keyvalEntries := by
          rw [isAddress]
          exact List.mem_of_getElem? live
        have spared := spares (id, row) member hasIterator
        refine ⟨?_, ?_⟩
        · change HasRow _ id (restored.rows .keyValue)
          have keyValueRows := rows .keyValue
          unfold UndoneRows at keyValueRows
          split at keyValueRows
          · rw [keyValueRows]
            exact ⟨row, found, rfl⟩
          · rename_i head isHead
            obtain ⟨notNew, sameKeys⟩ := spared head isHead
            exact hasRow_undoRows ⟨row, found, rfl⟩ notNew sameKeys keyValueRows
        · exact (stays (id, row) member
            (fun head isHead => (spared head isHead).1)).trans isAddress
      · intro left right isLeft isRight same
        obtain ⟨leftRow, leftFound⟩ := Option.ne_none_iff_exists'.mp isLeft
        obtain ⟨rightRow, rightFound⟩ := Option.ne_none_iff_exists'.mp isRight
        exact apart (left, leftRow) ((Maps.mem_map_toList _ _ _).mpr leftFound)
          (right, rightRow) ((Maps.mem_map_toList _ _ _).mpr rightFound) same

end EosDb

/-! ## Runs -/

/-- An `eos_db`, with the table and the primary key that each iterator was
issued for. -/
structure EosWithIssued where
  eos : EosDb
  issued : List (Int64 × UInt64)

namespace EosWithIssued

open EosDb

variable (sha : Bytes → Sha256) (ndebug : Bool)

/-- A new `eos_db` on a database. -/
def start (db : Database eosDbTables)
    (place : (t : TableType) → (indexOf t).Id → Address) : EosWithIssued :=
  { eos := ofDatabase db place, issued := [] }

def step (keyed : EosWithIssued) (call : EosCall) : Option EosWithIssued :=
  (call.step sha ndebug keyed.eos).map fun eos =>
    { eos := eos, issued := issuedAfter keyed.issued keyed.eos eos call }

/-- The calls on rows of the primary table and on sessions.  A pushed session
only stays on the undo stack.  The allocator returns vacant memory. -/
def Permitted (keyed : EosWithIssued) : EosCall → Prop
  | .dbStoreI64 _ _ _ _ _ _ memory =>
      keyed.eos.Vacant .keyValue memory.row.address
  | .dbUpdateI64 _ _ _ => True
  | .dbRemoveI64 _ => True
  | .dbFindI64 _ _ _ _ => True
  | .startUndoSession => True
  | .undo place => keyed.eos.Relocates place
  | .squash => True
  | .commit _ => True
  | _ => False

instance (keyed : EosWithIssued) (call : EosCall) :
    Decidable (keyed.Permitted call) := by
  apply @EosCall.casesOn (fun call => Decidable (keyed.Permitted call)) call <;>
    intros <;> unfold Permitted <;> infer_instance

/-- An undo spares the rows that have an iterator. -/
def UndoSpares (keyed : EosWithIssued) : EosCall → Prop
  | .undo _ => keyed.eos.Spares
  | _ => True

instance (keyed : EosWithIssued) (call : EosCall) :
    Decidable (keyed.UndoSpares call) := by
  apply @EosCall.casesOn (fun call => Decidable (keyed.UndoSpares call)) call <;>
    intros <;> unfold UndoSpares <;> infer_instance

variable {sha ndebug} {keyed next : EosWithIssued}

theorem faithful_step {call : EosCall}
    (faithful : Faithful keyed.eos keyed.issued)
    (permitted : keyed.Permitted call) (spared : keyed.UndoSpares call)
    (stepped : keyed.step sha ndebug call = some next) :
    Faithful next.eos next.issued := by
  have leaves : LeavesFaithful keyed.issued call (call.program sha ndebug)
      keyed.eos := by
    cases call with
    | dbStoreI64 code scope table payer id buffer memory =>
        exact ends_map (leavesFaithful_dbStoreI64 faithful permitted)
    | dbUpdateI64 iterator payer buffer =>
        exact ends_map (leavesFaithful_dbUpdateI64 faithful)
    | dbRemoveI64 iterator =>
        exact ends_map (leavesFaithful_dbRemoveI64 faithful)
    | dbFindI64 code scope table id =>
        exact ends_map (leavesFaithful_dbFindI64 faithful)
    | startUndoSession =>
        exact ends_map (leavesFaithful_onDatabase
          Database.leavesRows_startUndoSession faithful)
    | undo place =>
        exact ends_map (leavesFaithful_undo faithful permitted spared)
    | squash =>
        exact ends_map (leavesFaithful_onDatabase
          (Database.leavesRows_squash ndebug) faithful)
    | commit revision =>
        exact ends_map (leavesFaithful_onDatabase
          (Database.leavesRows_commit revision) faithful)
    | _ => exact permitted.elim
  obtain ⟨eos, survived, rfl⟩ := Option.map_eq_some_iff.mp stepped
  exact survive_of_ends
    (fun left => Faithful left (issuedAfter keyed.issued keyed.eos left call))
    leaves survived

/-- In every run on one `eos_db`, on any database, whose undos spare the rows
that have an iterator, every entry of `keyval_cache` that is not null refers to
a row that is stored and has the table and the primary key that the iterator was
issued for.  A run ends at a call that neither returns nor throws, as a
`db_remove_i64` that follows the stale address of a table. -/
theorem iterators_denote_issued_rows (sha : Bytes → Sha256) (ndebug : Bool)
    (db : Database eosDbTables)
    (place : (t : TableType) → (indexOf t).Id → Address)
    (calls : List EosCall) (final : EosWithIssued) (ready : db.Ready)
    (nodup : db.indexList.Nodup)
    (apart : (ofDatabase db place).Apart .keyValue)
    (permitted : Runs.AllowedFrom (step sha ndebug) Permitted (start db place)
      calls)
    (spared : Runs.AllowedFrom (step sha ndebug) UndoSpares (start db place)
      calls)
    (reached : Runs.run (step sha ndebug) (start db place) calls =
      some final) :
    final.eos.EntriesDenote final.issued := by
  have initially : Faithful (start db place).eos (start db place).issued :=
    { ready := ready
      nodup := nodup
      apart := apart
      mirrored := IteratorCache.mirrored_empty
      lengths := rfl
      entries := fun position address live => by cases live }
  have faithful := Runs.run_preserves
    (fun keyed => Faithful keyed.eos keyed.issued)
    (fun keyed call next faithful allowed stepped =>
      faithful_step faithful allowed.1 allowed.2 stepped)
    initially (permitted.and spared) reached
  exact faithful.entries

theorem emptyTables_apart
    (place : (t : TableType) → (indexOf t).Id → Address) (t : TableType) :
    (ofDatabase emptyTables place).Apart t := by
  intro left _ stored
  have absent : (emptyTables.rows t).rows[left]? = none :=
    MultiIndex.empty_row left
  exact absurd absent stored

theorem emptyTables_nodup : emptyTables.indexList.Nodup := by
  decide

/-- The addresses after an undo: one row, where it was. -/
def oneRowPlace : (t : TableType) → (indexOf t).Id → Address
  | .keyValue => fun _ => 32
  | _ => fun _ => 0

/-- A row is stored, changed in a session that is undone, and looked up
again. -/
def sparedCalls : List EosCall :=
  [.dbStoreI64 ⟨1⟩ 2 ⟨3⟩ ⟨4⟩ 7 [10] ⟨⟨16, 5⟩, ⟨32, 0⟩⟩, .startUndoSession,
    .dbUpdateI64 0 ⟨4⟩ [11], .undo oneRowPlace, .dbFindI64 ⟨1⟩ 2 ⟨3⟩ 7]

theorem iterators_denote_issued_rows_spared :
    ∃ final, Runs.run (step (fun _ => 0) false)
        (start emptyTables fun _ _ => 0) sparedCalls = some final ∧
      final.eos.keyvalEntries = [some 32] ∧ final.issued = [(5, 7)] ∧
      final.eos.EntriesDenote final.issued := by
  have test : (Runs.run (step (fun _ => 0) false)
      (start emptyTables fun _ _ => 0) sparedCalls).any (fun final =>
        decide (final.eos.keyvalEntries = [some 32] ∧
          final.issued = [(5, 7)])) = true := by
    decide +kernel
  obtain ⟨final, ran, holds⟩ := (Option.any_eq_true _ _).mp test
  obtain ⟨entries, issued⟩ := of_decide_eq_true holds
  exact ⟨final, ran, entries, issued,
    iterators_denote_issued_rows _ _ _ _ _ final emptyTables_ready
      emptyTables_nodup (emptyTables_apart _ .keyValue) (by decide +kernel)
      (by decide +kernel) ran⟩

/-- A row is stored in a session that is undone, and another row is stored at
the same address. -/
def undoneCalls : List EosCall :=
  [.startUndoSession, .dbStoreI64 ⟨1⟩ 2 ⟨3⟩ ⟨4⟩ 7 [10] ⟨⟨16, 5⟩, ⟨32, 0⟩⟩,
    .undo fun _ _ => 0,
    .dbStoreI64 ⟨1⟩ 2 ⟨3⟩ ⟨4⟩ 8 [20] ⟨⟨16, 5⟩, ⟨32, 0⟩⟩]

/-- The iterator of the first row then denotes the second one. -/
theorem undone_iterator_denotes_other_row :
    Runs.AllowedFrom (step (fun _ => 0) false) Permitted
      (start emptyTables fun _ _ => 0) undoneCalls ∧
    ∃ final, Runs.run (step (fun _ => 0) false)
        (start emptyTables fun _ _ => 0) undoneCalls = some final ∧
      final.issued = [(5, 7)] ∧
      (EStateM.run' (getObject false .keyValue 0) final.eos).map
        KeyValueObject.scopePrimary = some (5, 8) ∧
      ¬ final.eos.EntriesDenote final.issued := by
  have test : (Runs.run (step (fun _ => 0) false)
      (start emptyTables fun _ _ => 0) undoneCalls).any (fun final =>
        decide (final.issued = [(5, 7)] ∧
          (EStateM.run' (getObject false .keyValue 0) final.eos).map
            KeyValueObject.scopePrimary = some (5, 8) ∧
          final.eos.keyvalEntries[0]? = some (some 32) ∧
          ∀ entry ∈ (final.eos.db.rows .keyValue).rows.toList,
            entry.2.scopePrimary ≠ (5, 7))) = true := by
    decide +kernel
  obtain ⟨final, ran, holds⟩ := (Option.any_eq_true _ _).mp test
  obtain ⟨issued, denotes, live, others⟩ := of_decide_eq_true holds
  refine ⟨by decide +kernel, final, ran, issued, denotes, ?_⟩
  intro entriesDenote
  obtain ⟨id, row, found, _, isKey⟩ := entriesDenote 0 32 live
  rw [issued] at isKey
  exact others (id, row) ((Maps.mem_map_toList _ _ _).mpr found)
    (Option.some.inj isKey).symm

end EosWithIssued

end StateDatabase
