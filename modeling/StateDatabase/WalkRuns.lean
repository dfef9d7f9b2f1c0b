import Mathlib
import StateDatabase.TableWalks

/-!
# Walks after any run

A program stores, changes, removes and looks up rows through one `eos_db`, on
any database.  Whatever calls it has made, walks through a table visit its rows
in order, as long as iterators fit into an `int`.
-/

namespace StateDatabase

open Programs EosDb

/-- The calls on rows of the primary table and of the secondary indices. -/
inductive WalkCall where
  | eosCall (call : EosCall)
  | dbNextI64 (iterator : Int) (primary : UInt64)
  | dbPreviousI64 (iterator : Int) (primary : UInt64)
  | dbLowerboundI64 (code : Name) (scope : Sha256) (table : Name) (id : UInt64)
  | dbUpperboundI64 (code : Name) (scope : Sha256) (table : Name) (id : UInt64)
  | dbEndI64 (code : Name) (scope : Sha256) (table : Name)
  /-- a lookup in a secondary index, which changes nothing but its cache -/
  | secondaryLookup (kind : IndexKind) (cache : IteratorCache)

namespace WalkCall

variable (sha : Bytes → Sha256) (ndebug : Bool)

/-- What a call leaves behind; what it returns does not matter here. -/
def program : WalkCall → EosDbM PUnit
  | .eosCall call => (fun _ => ⟨⟩) <$> call.program sha ndebug
  | .dbNextI64 iterator primary =>
      (fun _ => ⟨⟩) <$> EosDb.dbNextI64 ndebug iterator primary
  | .dbPreviousI64 iterator primary =>
      (fun _ => ⟨⟩) <$> EosDb.dbPreviousI64 ndebug iterator primary
  | .dbLowerboundI64 code scope table id =>
      (fun _ => ⟨⟩) <$> EosDb.dbLowerboundI64 code scope table id
  | .dbUpperboundI64 code scope table id =>
      (fun _ => ⟨⟩) <$> EosDb.dbUpperboundI64 code scope table id
  | .dbEndI64 code scope table =>
      (fun _ => ⟨⟩) <$> EosDb.dbEndI64 code scope table
  | .secondaryLookup kind cache => setCache (.index kind) cache

end WalkCall

/-- An `eos_db` and the ids of all tables that it has had. -/
structure EosWithTableIds where
  eos : EosDb
  tableIds : List Int64

namespace EosWithTableIds

variable (sha : Bytes → Sha256) (ndebug : Bool)

/-- A new `eos_db` on a database. -/
def start (db : Database eosDbTables)
    (place : (t : TableType) → (indexOf t).Id → Address) : EosWithTableIds :=
  { eos := ofDatabase db place
    tableIds := (ofDatabase db place).liveTables ++
      (db.rows .keyValue).rows.toList.map fun entry => entry.2.tId }

/-- The caller goes on after an exception. -/
def step (eosIds : EosWithTableIds) (call : WalkCall) :
    Option EosWithTableIds :=
  (survive (call.program sha ndebug eosIds.eos)).map fun eos =>
    { eos := eos, tableIds := eos.liveTables ++ eosIds.tableIds }

/-- The allocator returns vacant memory, and a new table does not get the id of
a table that is gone. -/
def Permitted (eosIds : EosWithTableIds) : WalkCall → Prop
  | .eosCall (.dbStoreI64 code scope table _ _ _ memory) =>
      (eosIds.eos.tableNamed (code, scope, table) = none →
        eosIds.eos.TableBlock eosIds.tableIds memory.table) ∧
      eosIds.eos.Vacant .keyValue memory.row.address
  | .eosCall (.idxStore _ code scope table _ _ _ memory) =>
      eosIds.eos.tableNamed (code, scope, table) = none →
        eosIds.eos.TableBlock eosIds.tableIds memory.table
  | .eosCall (.dbUpdateI64 _ _ _) => True
  | .eosCall (.dbRemoveI64 _) => True
  | .eosCall (.dbGetI64 _ _) => True
  | .eosCall (.dbFindI64 _ _ _ _) => True
  | .eosCall (.idxUpdate _ _ _ _) => True
  | .eosCall (.idxRemove _ _) => True
  | .eosCall _ => False
  | _ => True

instance (eosIds : EosWithTableIds) (call : WalkCall) :
    Decidable (eosIds.Permitted call) := by
  apply @WalkCall.casesOn (fun call => Decidable (eosIds.Permitted call)) call
  · intro call
    apply @EosCall.casesOn
        (fun call => Decidable (eosIds.Permitted (.eosCall call))) call <;>
      intros <;> unfold Permitted <;> infer_instance
  all_goals
    intros
    exact isTrue trivial

variable {sha ndebug} {eosIds next : EosWithTableIds}

theorem navigable_step {call : WalkCall}
    (navigable : Navigable eosIds.eos eosIds.tableIds)
    (permitted : eosIds.Permitted call)
    (stepped : eosIds.step sha ndebug call = some next) :
    Navigable next.eos next.tableIds := by
  have leaves : LeavesNavigable eosIds.tableIds (call.program sha ndebug)
      eosIds.eos := by
    cases call with
    | eosCall call =>
        apply ends_map
        cases call with
        | dbStoreI64 code scope table payer id buffer memory =>
            exact ends_map (leavesNavigable_dbStoreI64 navigable permitted.1
              permitted.2)
        | idxStore kind code scope table payer id value memory =>
            exact ends_map (leavesNavigable_idxStore navigable permitted)
        | dbUpdateI64 iterator payer buffer =>
            exact ends_map (leavesNavigable_dbUpdateI64 navigable)
        | dbRemoveI64 iterator =>
            exact ends_map (leavesNavigable_dbRemoveI64 navigable)
        | dbGetI64 iterator bufferSize =>
            exact ends_map (leavesNavigable_dbGetI64 navigable)
        | dbFindI64 code scope table id =>
            exact ends_map (leavesNavigable_dbFindI64 navigable)
        | idxUpdate kind iterator payer secondary =>
            exact ends_map (leavesNavigable_idxUpdate navigable)
        | idxRemove kind iterator =>
            exact ends_map (leavesNavigable_idxRemove navigable)
        | _ => exact permitted.elim
    | dbNextI64 iterator primary =>
        exact ends_map (leavesNavigable_dbNextI64 navigable)
    | dbPreviousI64 iterator primary =>
        exact ends_map (leavesNavigable_dbPreviousI64 navigable)
    | dbLowerboundI64 code scope table id =>
        exact ends_map (leavesNavigable_rowAtBound navigable)
    | dbUpperboundI64 code scope table id =>
        exact ends_map (leavesNavigable_rowAtBound navigable)
    | dbEndI64 code scope table =>
        exact ends_map (leavesNavigable_dbEndI64 navigable)
    | secondaryLookup kind cache => exact leavesNavigable_setCache navigable
  obtain ⟨eos, survived, rfl⟩ := Option.map_eq_some_iff.mp stepped
  exact survive_of_ends
    (fun left => Navigable left (left.liveTables ++ eosIds.tableIds)) leaves
    survived

theorem navigable_start {db : Database eosDbTables}
    {place : (t : TableType) → (indexOf t).Id → Address} (ready : db.Ready)
    (rowsApart : (ofDatabase db place).Apart .keyValue)
    (tablesApart : (ofDatabase db place).Apart .tableId) :
    Navigable (start db place).eos (start db place).tableIds where
  ready := ready
  rowsApart := rowsApart
  tablesApart := tablesApart
  tableIds := fun tab stored =>
    List.mem_append_left _ (mem_liveTables.mpr stored)
  rowTables := by
    intro id row found
    apply List.mem_append_right
    exact List.mem_map.mpr
      ⟨(id, row), (Maps.mem_map_toList _ _ _).mpr found, rfl⟩
  cache :=
    { mirrored := IteratorCache.mirrored_empty
      entries := fun position address live => by cases live
      tables := fun tab entry cached => by cases cached }
  charted := IteratorCache.charted_empty
  strays := fun tab id row _ isEnd => by cases isEnd

/-- After any calls on rows, walks through a table that is there visit its rows
in order, in both directions: from `db_lowerbound_i64` and
`db_upperbound_i64`, from the end, and from any iterator of a row.  The entries
of `keyval_cache` and the rows of the table that have none are together at most
2^31, and fewer than 2^31 - 2 tables are in the cache. -/
theorem walks_visit_rows_in_order (sha : Bytes → Sha256) (ndebug : Bool)
    (db : Database eosDbTables)
    (place : (t : TableType) → (indexOf t).Id → Address)
    (calls : List WalkCall) (final : EosWithTableIds) (code : Name)
    (scope : Sha256) (table : Name) (tab : TableIdObject) (ready : db.Ready)
    (rowsApart : (ofDatabase db place).Apart .keyValue)
    (tablesApart : (ofDatabase db place).Apart .tableId)
    (permitted : Runs.AllowedFrom (step sha ndebug) Permitted (start db place)
      calls)
    (reached : Runs.run (step sha ndebug) (start db place) calls = some final)
    (named : final.eos.tableNamed (code, scope, table) = some tab)
    (fits : final.eos.Fits tab.id) :
    OrderedTraversal ndebug code scope table final.eos tab.id := by
  have navigable := Runs.run_preserves
    (fun eosIds => Navigable eosIds.eos eosIds.tableIds)
    (fun _ _ _ navigable allowed stepped =>
      navigable_step navigable allowed stepped)
    (navigable_start ready rowsApart tablesApart) permitted reached
  exact navigable.orderedTraversal named fits

/-- Two rows and an index row in one table and a row in another one, a walk, and
the removal of a row that has a second iterator afterwards. -/
def walkedCalls : List WalkCall :=
  [.eosCall (.dbStoreI64 ⟨1⟩ 2 ⟨3⟩ ⟨4⟩ 7 [10] ⟨⟨16, 5⟩, ⟨32, 0⟩⟩),
    .eosCall (.dbStoreI64 ⟨1⟩ 2 ⟨3⟩ ⟨4⟩ 3 [11] ⟨⟨48, 6⟩, ⟨64, 0⟩⟩),
    .eosCall (.dbStoreI64 ⟨1⟩ 2 ⟨9⟩ ⟨4⟩ 5 [12] ⟨⟨48, 6⟩, ⟨96, 0⟩⟩),
    .eosCall (.idxStore .idx64 ⟨1⟩ 2 ⟨3⟩ ⟨4⟩ 7 100 ⟨⟨80, 8⟩, ⟨128, 9⟩⟩),
    .dbLowerboundI64 ⟨1⟩ 2 ⟨3⟩ 0, .dbNextI64 1 0, .eosCall (.dbRemoveI64 0),
    .eosCall (.dbStoreI64 ⟨1⟩ 2 ⟨3⟩ ⟨4⟩ 18446744073709551615 []
      ⟨⟨80, 8⟩, ⟨32, 0⟩⟩)]

theorem walks_visit_rows_in_order_twoTables :
    ∃ final tab, Runs.run (step (fun _ => 0) false)
        (start emptyTables fun _ _ => 0) walkedCalls = some final ∧
      final.eos.tableNamed (⟨1⟩, 2, ⟨3⟩) = some tab ∧ tab.id = 5 ∧
      final.eos.tableSize 5 = 2 ∧
      OrderedTraversal false ⟨1⟩ 2 ⟨3⟩ final.eos tab.id := by
  have test : (Runs.run (step (fun _ => 0) false)
      (start emptyTables fun _ _ => 0) walkedCalls).any (fun final =>
        decide ((final.eos.tableNamed (⟨1⟩, 2, ⟨3⟩)).map TableIdObject.id =
            some 5 ∧ final.eos.tableSize 5 = 2 ∧
          final.eos.keyvalEntries.length = 4 ∧
          (final.eos.caches .keyValue).endIteratorToTable.length = 2)) =
      true := by
    decide +kernel
  obtain ⟨final, ran, holds⟩ := (Option.any_eq_true _ _).mp test
  obtain ⟨isNamed, size, entries, tables⟩ := of_decide_eq_true holds
  obtain ⟨tab, named, isId⟩ := Option.map_eq_some_iff.mp isNamed
  have fits : final.eos.Fits tab.id := by
    rw [isId]
    exact fits_of_tableSize (by rw [entries, size]; decide)
      (by rw [tables]; decide)
  exact ⟨final, tab, ran, named, isId, size,
    walks_visit_rows_in_order _ _ _ _ _ final _ _ _ tab emptyTables_ready
      (EosWithIssued.emptyTables_apart _ .keyValue)
      (EosWithIssued.emptyTables_apart _ .tableId) (by decide +kernel) ran named
      fits⟩

/-! ## More iterators than an `int` can hold -/

/-- The rows stand one behind the other. -/
def rowAddress (number : Nat) : Address :=
  256 * number + 256

theorem rowAddress_inj {left right : Nat}
    (same : rowAddress left = rowAddress right) : left = right := by
  change (256 * left + 256 : Nat) = 256 * right + 256 at same
  omega

/-- The row with this key is stored in one and the same table. -/
def fillCall (number : Nat) : WalkCall :=
  .eosCall (.dbStoreI64 ⟨1⟩ 2 ⟨3⟩ ⟨4⟩ (UInt64.ofNat number) []
    ⟨⟨16, 5⟩, ⟨rowAddress number, 0⟩⟩)

def fillCalls (size : Nat) : List WalkCall :=
  (List.range size).map fillCall

/-- The rows with the keys below `size` are stored, and the iterator of each is
its key. -/
structure Filled (size : Nat) (eosIds : EosWithTableIds) : Prop where
  navigable : Navigable eosIds.eos eosIds.tableIds
  table : eosIds.tableIds = [] ∨
    ∃ tab, eosIds.eos.tableNamed (⟨1⟩, 2, ⟨3⟩) = some tab ∧ tab.id = 5
  stored : ∀ number < size,
    (eosIds.eos.db.rows .keyValue).rows[(UInt64.ofNat number).toInt64]? =
      some (newKeyValue ⟨4⟩ (UInt64.ofNat number) [] 5)
  rows : ∀ (id : Int64) (row : KeyValueObject),
    (eosIds.eos.db.rows .keyValue).rows[id]? = some row →
      ∃ number < size, id = (UInt64.ofNat number).toInt64
  place : ∀ number < size, eosIds.eos.place .keyValue
    (UInt64.ofNat number).toInt64 = rowAddress number
  entries : eosIds.eos.keyvalEntries =
    (List.range size).map fun number => some (rowAddress number)

theorem toInt64_ofNat_inj {left right : Nat} (leftBound : left < 2 ^ 64)
    (rightBound : right < 2 ^ 64)
    (same : (UInt64.ofNat left).toInt64 = (UInt64.ofNat right).toInt64) :
    left = right := by
  have same' := congrArg (fun id => id.toUInt64.toNat) same
  simp only [UInt64.toUInt64_toInt64, UInt64.toNat_ofNat'] at same'
  rwa [Nat.mod_eq_of_lt leftBound, Nat.mod_eq_of_lt rightBound] at same'

theorem filled_start : Filled 0 (start emptyTables fun _ _ => 0) := by
  have noRow : ∀ id : Int64, (emptyTables.rows .keyValue).rows[id]? = none :=
    fun id => MultiIndex.empty_row id
  refine ⟨navigable_start emptyTables_ready
    (EosWithIssued.emptyTables_apart _ .keyValue)
    (EosWithIssued.emptyTables_apart _ .tableId), Or.inl ?_, nofun, ?_, nofun,
    rfl⟩
  · decide +kernel
  · intro id row found
    rw [show ((start emptyTables fun _ _ => 0).eos.db.rows
      .keyValue).rows[id]? = none from noRow id] at found
    cases found

section Fill

variable {size : Nat}

/-- The block of the next row is vacant. -/
theorem Filled.vacant (filled : Filled size eosIds) :
    eosIds.eos.Vacant .keyValue (rowAddress size) := by
  intro entry member
  obtain ⟨number, bound, isId⟩ := filled.rows entry.1 entry.2
    ((Maps.mem_map_toList _ _ _).mp member)
  have isId' : entry.1 = (UInt64.ofNat number).toInt64 := isId
  rw [isId', filled.place number bound]
  intro same
  have sameNumber := rowAddress_inj same
  omega

/-- The table of the rows can be found or created. -/
theorem Filled.granted (filled : Filled size eosIds)
    (absent : eosIds.eos.tableNamed (⟨1⟩, 2, ⟨3⟩) = none) :
    eosIds.eos.TableBlock eosIds.tableIds ⟨16, 5⟩ ∧
      (eosIds.eos.db.rows .tableId).rows[(5 : Int64)]? = none := by
  rcases filled.table with noTable | ⟨tab, named, _⟩
  · have noTables : ∀ tab : Int64,
        (eosIds.eos.db.rows .tableId).rows[tab]? = none := by
      intro tab
      by_contra stored
      have used := filled.navigable.tableIds tab stored
      rw [noTable] at used
      cases used
    refine ⟨⟨?_, ?_⟩, noTables 5⟩
    · intro entry member
      have found := (Maps.mem_map_toList _ _ _).mp member
      rw [noTables entry.1] at found
      cases found
    · intro member
      rw [noTable] at member
      cases member
  · rw [absent] at named
    cases named

/-- The next row is admitted. -/
theorem Filled.admits (filled : Filled size eosIds) (bound : size < 2 ^ 63) :
    (eosIds.eos.db.rows .keyValue).Admits
      (newKeyValue ⟨4⟩ (UInt64.ofNat size) [] 5) := by
  rw [MultiIndex.admits_iff]
  constructor
  · cases found : (eosIds.eos.db.rows .keyValue).rows[
        (UInt64.ofNat size).toInt64]? with
    | none => exact found
    | some row =>
        obtain ⟨number, less, same⟩ := filled.rows _ row found
        have isNumber : size = number :=
          toInt64_ofNat_inj (by omega) (by omega) same
        omega
  · intro id row found clash
    obtain ⟨number, less, isId⟩ := filled.rows id row found
    rw [isId, filled.stored number less] at found
    have isRow := Option.some.inj found
    have sameKey := (clash_keyValue_iff _ _).mp clash
    rw [← isRow] at sameKey
    have isNumber : size = number := toInt64_ofNat_inj (by omega) (by omega)
      (congrArg (fun key => key.2.toInt64) sameKey)
    omega

theorem Filled.tableFor_eq (filled : Filled size eosIds) :
    eosIds.eos.tableFor (⟨1⟩, 2, ⟨3⟩) ⟨16, 5⟩ = 5 := by
  rw [tableFor]
  cases named : eosIds.eos.tableNamed (⟨1⟩, 2, ⟨3⟩) with
  | none => rfl
  | some tab =>
      rcases filled.table with noTable | ⟨tab', named', isId⟩
      · have used := filled.navigable.tableIds tab.id (by
          rw [(row_of_tableNamed named).1]
          exact Option.some_ne_none tab)
        rw [noTable] at used
        cases used
      · rw [named] at named'
        cases named'
        exact isId

/-- What the store of the next row leaves. -/
theorem Filled.stores (filled : Filled size eosIds) (bound : size < 2 ^ 63) :
    ∃ value stored,
      dbStoreI64 ⟨1⟩ 2 ⟨3⟩ ⟨4⟩ (UInt64.ofNat size) []
          ⟨⟨16, 5⟩, ⟨rowAddress size, 0⟩⟩ eosIds.eos =
        .ok value ((EosDb.withTable stored 5).withObject
          (UInt64.ofNat size).toInt64) ∧
      stored.HasName 5 (⟨1⟩, 2, ⟨3⟩) ∧
      (∀ tested : Int64, (stored.db.rows .keyValue).rows[tested]? =
        if (UInt64.ofNat size).toInt64 = tested then
          some (newKeyValue ⟨4⟩ (UInt64.ofNat size) [] 5)
        else (eosIds.eos.db.rows .keyValue).rows[tested]?) ∧
      stored.place .keyValue = Function.update (eosIds.eos.place .keyValue)
        (UInt64.ofNat size).toInt64 (rowAddress size) ∧
      stored.caches = eosIds.eos.caches := by
  have locates : Ends (findOrCreateTable ⟨1⟩ 2 ⟨3⟩ ⟨4⟩ ⟨16, 5⟩)
      eosIds.eos _ _ := ends_findOrCreateTable_rows filled.navigable.ready
  obtain ⟨middle, _, located, _⟩ : ∃ middle tableObj,
      findOrCreateTable ⟨1⟩ 2 ⟨3⟩ ⟨4⟩
        (Memory.mk ⟨16, 5⟩ ⟨rowAddress size, 0⟩).table eosIds.eos = _ ∧ _ :=
    findOrCreateTable_located (r := .keyValue) filled.navigable.ready
      (fun absent => (filled.granted absent).2)
  rw [filled.tableFor_eq] at located
  obtain ⟨ready, hasName, sameRows, samePlace, sameCaches⟩ :=
    locates.of_ok located
  obtain ⟨inserted, success⟩ : ∃ inserted,
      (eosIds.eos.db.rows .keyValue).emplace
        (newKeyValue ⟨4⟩ (UInt64.ofNat size) [] 5) = some inserted :=
    ⟨_, MultiIndex.emplace_of_admits (filled.admits bound)⟩
  have entries := (MultiIndex.emplace_some success).2
  rw [← sameRows] at success
  obtain ⟨value, stored, stores, _, storedName, storedRows, storedPlace,
    storedCaches⟩ := dbStoreI64_stored located ready hasName success
  refine ⟨value, stored, stores, storedName, ?_, ?_, ?_⟩
  · intro tested
    rw [storedRows]
    exact entries tested
  · rw [storedPlace, samePlace]
  · rw [storedCaches, sameCaches]

/-- One more row. -/
theorem Filled.succ (filled : Filled size eosIds) (bound : size < 2 ^ 63)
    (sha : Bytes → Sha256) (ndebug : Bool) :
    eosIds.Permitted (fillCall size) ∧
    ∃ next, eosIds.step sha ndebug (fillCall size) = some next ∧
      Filled (size + 1) next := by
  have permitted : eosIds.Permitted (fillCall size) :=
    ⟨fun absent => (filled.granted absent).1, filled.vacant⟩
  obtain ⟨value, stored, stores, hasName, rows, place, caches⟩ :=
    filled.stores bound
  have steps : eosIds.step sha ndebug (fillCall size) = some
      { eos := (EosDb.withTable stored 5).withObject
          (UInt64.ofNat size).toInt64
        tableIds := EosDb.liveTables ((EosDb.withTable stored 5).withObject
          (UInt64.ofNat size).toInt64) ++ eosIds.tableIds } := by
    have runs : (fillCall size).program sha ndebug eosIds.eos =
        .ok ⟨⟩ ((EosDb.withTable stored 5).withObject
          (UInt64.ofNat size).toInt64) := by
      exact map_apply_of_ok _ (map_apply_of_ok _ stores)
    rw [step, runs]
    rfl
  obtain ⟨tab, named, isId⟩ := tableNamed_of_hasName hasName
  refine ⟨permitted, _, steps, ?_⟩
  refine ⟨navigable_step filled.navigable permitted steps,
    Or.inr ⟨tab, named, isId⟩, ?_, ?_, ?_, ?_⟩
  · intro number less
    refine (rows _).trans ?_
    by_cases same : size = number
    · rw [← same, if_pos rfl]
    · rw [if_neg]
      · exact filled.stored number (by omega)
      · exact fun sameId =>
          same (toInt64_ofNat_inj (by omega) (by omega) sameId)
  · intro id row found
    have found' := (rows id).symm.trans found
    by_cases same : (UInt64.ofNat size).toInt64 = id
    · exact ⟨size, by omega, same.symm⟩
    · rw [if_neg same] at found'
      obtain ⟨number, less, isNumber⟩ := filled.rows id row found'
      exact ⟨number, by omega, isNumber⟩
  · intro number less
    change stored.place .keyValue _ = _
    rw [place]
    by_cases same : size = number
    · rw [← same, Function.update_self]
    · rw [Function.update_of_ne]
      · exact filled.place number (by omega)
      · exact fun sameId =>
          same (toInt64_ofNat_inj (by omega) (by omega) sameId.symm)
  · have before : (EosDb.withTable stored 5).keyvalEntries =
        eosIds.eos.keyvalEntries := by
      rw [withTable_entries, keyvalEntries, caches]
      rfl
    have isPlace : (EosDb.withTable stored 5).place .keyValue
        (UInt64.ofNat size).toInt64 = rowAddress size := by
      change stored.place .keyValue _ = _
      rw [place, Function.update_self]
    have misses : ((EosDb.withTable stored 5).caches .keyValue).Misses
        (rowAddress size) := by
      intro position live
      rw [withTable_cache, IteratorCache.cacheTable_iteratorToObject,
        caches] at live
      exact filled.navigable.misses filled.vacant position live
    have mirrored : ((EosDb.withTable stored 5).caches .keyValue).Mirrored := by
      rw [withTable_cache, caches]
      exact filled.navigable.cache.mirrored.cacheTable _ _
    have longer : ((EosDb.withTable stored 5).withObject
        (UInt64.ofNat size).toInt64).keyvalEntries =
        (EosDb.withTable stored 5).keyvalEntries ++
          [some (rowAddress size)] := by
      rw [keyvalEntries, withObject_cache, isPlace, mirrored.add_of_new misses]
      rfl
    rw [longer, before, filled.entries, List.range_succ, List.map_append]
    rfl

/-- The rows are stored one after the other. -/
theorem filled_run (sha : Bytes → Sha256) (ndebug : Bool) (size : Nat)
    (bound : size ≤ 2 ^ 63) :
    Runs.AllowedFrom (step sha ndebug) Permitted
        (start emptyTables fun _ _ => 0) (fillCalls size) ∧
      ∃ final, Runs.run (step sha ndebug) (start emptyTables fun _ _ => 0)
        (fillCalls size) = some final ∧ Filled size final := by
  induction size with
  | zero => exact ⟨trivial, _, rfl, filled_start⟩
  | succ size inductionHypothesis =>
      obtain ⟨permitted, eosIds, ran, filled⟩ := inductionHypothesis (by omega)
      obtain ⟨allowed, final, stepped, isFilled⟩ :=
        filled.succ (by omega) sha ndebug
      have isCalls : fillCalls (size + 1) =
          fillCalls size ++ [fillCall size] := by
        rw [fillCalls, List.range_succ, List.map_append]
        rfl
      rw [isCalls]
      constructor
      · apply permitted.append
        intro middle reached
        rw [ran] at reached
        cases reached
        exact ⟨allowed, fun _ _ => trivial⟩
      · refine ⟨final, ?_, isFilled⟩
        rw [Runs.run_append, ran, Option.bind_some, Runs.run_cons, stepped]
        rfl

end Fill

/-- The bound of the last of `size` rows leads to its entry. -/
theorem Filled.dbLowerboundI64_last {size : Nat}
    (filled : Filled (size + 1) eosIds) (bound : size < 2 ^ 63)
    {tab : TableIdObject}
    (named : eosIds.eos.tableNamed (⟨1⟩, 2, ⟨3⟩) = some tab) :
    ∃ started, dbLowerboundI64 ⟨1⟩ 2 ⟨3⟩ (UInt64.ofNat size) eosIds.eos =
      .ok (toInt32 size) started := by
  rcases filled.table with noTable | ⟨tab', named', isId⟩
  · have used := filled.navigable.tableIds tab.id (by
      rw [(row_of_tableNamed named).1]
      exact Option.some_ne_none tab)
    rw [noTable] at used
    cases used
  rw [named] at named'
  cases named'
  have keyNumber : ∀ number : Nat, number < 2 ^ 64 →
      (UInt64.ofNat number).toNat = number := by
    intro number isLess
    rw [UInt64.toNat_ofNat', Nat.mod_eq_of_lt isLess]
  have isStored := filled.stored size (by omega)
  have isPlace := filled.place size (by omega)
  have live : eosIds.eos.keyvalEntries[size]? =
      some (some (rowAddress size)) := by
    rw [filled.entries, List.getElem?_map, List.getElem?_range (by omega)]
    rfl
  rcases rowAtBound_cases filled.navigable named
      (fun idx => lowerBound_eq idx tab.id (UInt64.ofNat size))
      (fun isLe isAbove => UInt64.le_trans isAbove isLe) with
    ⟨front, row, back, neighbours, _, lists, program⟩ | ⟨lists, _⟩
  · -- no other row has a key as large
    obtain ⟨found, _, isAbove⟩ := (lists.exact row).mp List.mem_cons_self
    obtain ⟨number, less, isRowId⟩ := filled.rows row.id row found
    rw [isRowId, filled.stored number less] at found
    have isRow := Option.some.inj found
    rw [← isRow] at isAbove
    have isAbove' := UInt64.le_iff_toNat_le.mp isAbove
    rw [keyNumber size (by omega)] at isAbove'
    change size ≤ (UInt64.ofNat number).toNat at isAbove'
    rw [keyNumber number (by omega)] at isAbove'
    have isNumber : number = size := by omega
    rw [isNumber] at isRowId
    have isCached := filled.navigable.cache.mirrored.cacheTable tab.id
      (eosIds.eos.place .tableId tab.id)
    have adds := isCached.add_of_live (by
      rw [IteratorCache.cacheTable_iteratorToObject]
      exact live)
    refine ⟨(EosDb.withTable eosIds.eos tab.id).withObject row.id, ?_⟩
    refine program.trans ((addObject_apply row.id).trans ?_)
    rw [withTable_cache, isRowId]
    change EStateM.Result.ok (IteratorCache.add _
      (eosIds.eos.place .keyValue (UInt64.ofNat size).toInt64)).1 _ = _
    rw [isPlace, adds]
  · have member := (lists.exact (newKeyValue ⟨4⟩ (UInt64.ofNat size) [] 5)).mpr
      ⟨isStored, isId.symm, UInt64.le_refl _⟩
    cases member

/-- The first number that is not an `int`.  It is not unfolded, because there
are lists of this length below. -/
@[irreducible]
def manyRows : Nat := 2 ^ 31

theorem manyRows_lt : manyRows < 2 ^ 63 := by
  unfold manyRows
  omega

theorem toInt32_manyRows : toInt32 manyRows < -1 := by
  unfold manyRows
  decide

/-- After 2^31 + 1 rows, `db_lowerbound_i64` returns a number below -1 for the
last row, from which no walk is possible. -/
theorem walk_from_last_row_fails :
    Runs.AllowedFrom (step (fun _ => 0) false) Permitted
      (start emptyTables fun _ _ => 0) (fillCalls (manyRows + 1)) ∧
    ∃ final tab first started,
      Runs.run (step (fun _ => 0) false) (start emptyTables fun _ _ => 0)
        (fillCalls (manyRows + 1)) = some final ∧
      final.eos.tableNamed (⟨1⟩, 2, ⟨3⟩) = some tab ∧
      dbLowerboundI64 ⟨1⟩ 2 ⟨3⟩ (UInt64.ofNat manyRows) final.eos =
        .ok first started ∧ first < -1 ∧
      ¬ OrderedTraversal false ⟨1⟩ 2 ⟨3⟩ final.eos tab.id := by
  obtain ⟨permitted, final, ran, filled⟩ :=
    filled_run (fun _ => 0) false (manyRows + 1) manyRows_lt
  have isStored := filled.stored manyRows (Nat.lt_succ_self manyRows)
  obtain ⟨tab, named, isId⟩ : ∃ tab,
      final.eos.tableNamed (⟨1⟩, 2, ⟨3⟩) = some tab ∧ tab.id = 5 := by
    rcases filled.table with noTable | isNamed
    · have used := filled.navigable.rowTables _ _ isStored
      rw [noTable] at used
      cases used
    · exact isNamed
  obtain ⟨started, lower⟩ := filled.dbLowerboundI64_last manyRows_lt named
  refine ⟨permitted, final, tab, _, started, ran, named, lower,
    toInt32_manyRows, ?_⟩
  intro traversal
  obtain ⟨rows, first, left, lists, lower', visits⟩ :=
    traversal.lowerbound (UInt64.ofNat manyRows)
  rw [lower, EStateM.Result.ok.injEq] at lower'
  have isNegative := toInt32_manyRows
  rw [lower'.1] at isNegative
  cases rows with
  | nil =>
      have member := (lists.exact
        (newKeyValue ⟨4⟩ (UInt64.ofNat manyRows) [] 5)).mpr
          ⟨isStored, isId.symm, UInt64.le_refl _⟩
      cases member
  | cons row rest =>
      obtain ⟨got, _⟩ := visits
      have isError : (left.caches .keyValue).get false first =
          .error (.assertion "dereference of end iterator") := by
        rw [IteratorCache.get, if_neg (by omega), if_pos (by omega)]
        rfl
      rw [getObject_error isError] at got
      cases got

end EosWithTableIds

end StateDatabase
