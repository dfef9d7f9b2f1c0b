import Mathlib
import StateDatabase.RowCalls
import StateDatabase.CountRuns
import StateDatabase.KeyMap

/-!
# The contract tables refine maps

A log works with one `eos_db` through the tables and iterators that it was
given, and writes down every call with the names of what it was about, and every
answer.  The answers are those of the maps of `ContractStore`, and the maps are
what the rows stand for.
-/

namespace StateDatabase

open Programs GenericIndex EosDb

/-- An `eos_db` with the log of its calls: the tables and the iterators that it
has given out, the calls and their answers. -/
structure EosLog where
  eos : EosDb
  tableIds : List Int64
  tables : List (Int64 × TableName)
  /-- the iterators that were not removed -/
  iterators : List (RowTable × Int × StoreKey)
  made : List StoreCall
  answers : List (Except Fault Answer)

/-- What a caller learns, apart from tables and iterators. -/
def Reply.answer : Reply → Answer
  | .done => .done
  | .table _ => .done
  | .iterator value => .row (decide (0 ≤ value))
  | .copied size buffer => .copied size buffer
  | .found record => .record (record.map fun t => (t.payer, t.value))

namespace EosCall

/-- The iterator that a call returns, and what it is an iterator of. -/
def shown (call : EosCall) (reply : Reply) :
    Option (RowTable × Int × StoreKey) :=
  match call, reply with
  | .dbStoreI64 code scope table _ id _ _, .iterator value =>
      some (.keyValue, value, (code, scope, table), id)
  | .idxStore kind code scope table _ id _ _, .iterator value =>
      some (.index kind, value, (code, scope, table), id)
  | .dbFindI64 code scope table id, .iterator value =>
      if 0 ≤ value then some (.keyValue, value, (code, scope, table), id)
      else none
  | _, _ => none

/-- The table that a call returns. -/
def tabled (call : EosCall) (reply : Reply) : Option (Int64 × TableName) :=
  match call, reply with
  | .findOrCreateTable code scope table _ _, .table tab =>
      some (tab, code, scope, table)
  | .dbStoreByScope code scope table _ _ _, .table tab =>
      some (tab, code, scope, table)
  | _, _ => none

/-- The iterator that a call removes. -/
def gone : EosCall → Option (RowTable × Int)
  | .dbRemoveI64 iterator => some (.keyValue, iterator)
  | .idxRemove kind iterator => some (.index kind, iterator)
  | _ => none

end EosCall

namespace EosLog

/-- A new `eos_db` on empty tables. -/
def start (place : (t : TableType) → (indexOf t).Id → Address) : EosLog :=
  { eos := ofDatabase emptyTables place
    tableIds := []
    tables := []
    iterators := []
    made := []
    answers := [] }

section Entries

variable (sha : Bytes → Sha256) (ndebug : Bool) (log : EosLog)

def nameOf (tab : Int64) : Option TableName :=
  (log.tables.find? fun entry => entry.1 = tab).map Prod.snd

def keyOf (r : RowTable) (iterator : Int) : Option StoreKey :=
  (log.iterators.find? fun entry =>
    entry.1 = r ∧ entry.2.1 = iterator).map fun entry => entry.2.2

theorem nameOf_mem {tab : Int64} {name : TableName}
    (known : log.nameOf tab = some name) : (tab, name) ∈ log.tables := by
  rcases Option.map_eq_some_iff.mp known with ⟨entry, hit, isName⟩
  have isTab := List.find?_some hit
  rw [decide_eq_true_iff] at isTab
  rw [← isTab, ← isName]
  exact List.mem_of_find?_eq_some hit

theorem keyOf_mem {r : RowTable} {iterator : Int} {key : StoreKey}
    (known : log.keyOf r iterator = some key) :
    (r, iterator, key) ∈ log.iterators := by
  rcases Option.map_eq_some_iff.mp known with ⟨entry, hit, isKey⟩
  have isEntry := List.find?_some hit
  rw [decide_eq_true_iff] at isEntry
  rw [← isEntry.1, ← isEntry.2, ← isKey]
  exact List.mem_of_find?_eq_some hit

/-- A record by the hash of its key. -/
def recordOf (scope : Sha256) {type : KeyType} (key : Key type) :
    Option Sha256 :=
  (hashKey sha scope key).toOption

/-- The call with names, if the log has them. -/
def named : EosCall → Option StoreCall
  | .findOrCreateTable code scope table payer _ =>
      some (.findOrCreateTable (code, scope, table) payer)
  | .dbStoreByScope code scope table payer buffer _ =>
      some (.storeByScope (code, scope, table) payer buffer)
  | .dbUpdateByScope tab payer buffer =>
      (log.nameOf tab).map fun name => .updateByScope name payer buffer
  | .dbStoreI64 code scope table payer id buffer _ =>
      some (.storeRow .keyValue ((code, scope, table), id) (payer, buffer))
  | .dbUpdateI64 iterator payer buffer =>
      (log.keyOf .keyValue iterator).map fun key =>
        .updateRow .keyValue key (payer, buffer)
  | .dbRemoveI64 iterator =>
      (log.keyOf .keyValue iterator).map fun key => .removeRow .keyValue key
  | .dbGetI64 iterator bufferSize =>
      (log.keyOf .keyValue iterator).map fun key => .getRow key bufferSize
  | .dbFindI64 code scope table id =>
      some (.findRow ((code, scope, table), id))
  | .idxStore kind code scope table payer id value _ =>
      some (.storeRow (.index kind) ((code, scope, table), id) (payer, value))
  | .idxUpdate kind iterator payer secondary =>
      (log.keyOf (.index kind) iterator).map fun key =>
        .updateRow (.index kind) key (payer, secondary)
  | .idxRemove kind iterator =>
      (log.keyOf (.index kind) iterator).map fun key =>
        .removeRow (.index kind) key
  | .dbStoreByKey _ scope key payer buffer _ =>
      (recordOf sha scope key).map fun id => .storeRecord id payer buffer
  | .dbUpdateByKey _ scope key payer buffer =>
      (recordOf sha scope key).map fun id => .updateRecord id payer buffer
  | .dbRemoveByKey _ scope key =>
      (recordOf sha scope key).map .removeRecord
  | .dbFindByKey _ scope key => (recordOf sha scope key).map .findRecord
  | _ => none

/-- The log after a call. -/
def entered (call : EosCall) (answer : Except Fault Answer) (eos : EosDb) :
    EosLog :=
  { log with
    eos := eos
    tableIds := eos.liveTables ++ log.tableIds
    made := log.made ++ (log.named sha call).toList
    answers := log.answers ++ [answer] }

def returned (call : EosCall) (reply : Reply) (eos : EosDb) : EosLog :=
  { log.entered sha call (.ok reply.answer) eos with
    tables := (call.tabled reply).toList ++ log.tables
    iterators := (call.shown reply).toList ++
      log.iterators.filter fun entry =>
        call.gone ≠ some (entry.1, entry.2.1) }

/-- The caller goes on after an exception. -/
def step (call : EosCall) : Option EosLog :=
  match call.program sha ndebug log.eos with
  | .ok reply eos => some (log.returned sha call reply eos)
  | .error fault eos =>
      if fault.isException then some (log.entered sha call (.error fault) eos)
      else none

/-! ## What may be called -/

/-- The table is there, or the allocator returns new memory for it. -/
def CanLocate (name : TableName) (block : Block) : Prop :=
  log.eos.tableNamed name = none →
    log.eos.FreshBlock log.tableIds block

instance (name : TableName) (block : Block) :
    Decidable (log.CanLocate name block) := by
  unfold CanLocate
  infer_instance

/-- There is memory and a table with room for the row. -/
def CanStore (r : RowTable) (name : TableName) (memory : Memory) : Prop :=
  log.CanLocate name memory.table ∧
  log.eos.Vacant r.type memory.row.address ∧
  ∀ tableObj ∈ log.eos.tableNamed name,
    rowsOf log.eos.db.rows tableObj.id + 1 < 2 ^ 32

instance (r : RowTable) (name : TableName) (memory : Memory) :
    Decidable (log.CanStore r name memory) := by
  unfold CanStore
  infer_instance

/-- No `assert` fails: a record is stored when it is not there, unless
assertions are compiled away, and changed or removed when it is. -/
def RecordCall (scope : Sha256) {type : KeyType} (key : Key type)
    (present : Bool) : Prop :=
  (recordOf sha scope key).map (fun id =>
    ((log.eos.db.rows .tableKey).find id).isSome) = some present

instance (scope : Sha256) {type : KeyType} (key : Key type) (present : Bool) :
    Decidable (log.RecordCall sha scope key present) := by
  unfold RecordCall
  infer_instance

/-- What the caller and the allocator have to see to. -/
def Grants : EosCall → Prop
  | .findOrCreateTable code scope table _ block =>
      log.CanLocate (code, scope, table) block
  | .dbStoreByScope code scope table _ _ block =>
      log.CanLocate (code, scope, table) block
  | .dbUpdateByScope tab _ _ => (log.eos.db.rows .tableId).rows[tab]? ≠ none
  | .dbStoreI64 code scope table _ _ _ memory =>
      log.CanStore .keyValue (code, scope, table) memory
  | .idxStore kind code scope table _ _ _ memory =>
      log.CanStore (.index kind) (code, scope, table) memory ∧
      (log.eos.db.rows (.index kind)).rows[memory.row.unset]? = none
  | .dbStoreByKey _ scope key _ _ block =>
      (ndebug = true ∨ log.RecordCall sha scope key false) ∧
      log.eos.Vacant .tableKey block.address
  | .dbUpdateByKey _ scope key _ _ => log.RecordCall sha scope key true
  | .dbRemoveByKey _ scope key => log.RecordCall sha scope key true
  | _ => True

instance (call : EosCall) : Decidable (log.Grants sha ndebug call) := by
  cases call <;> unfold Grants <;> infer_instance

/-- No iterator wraps around. -/
def FewIterators : Prop :=
  (∀ r ∈ RowTable.all,
    (log.eos.caches r).iteratorToObject.length < 2 ^ 31) ∧
  (log.eos.caches .keyValue).endIteratorToTable.length + 1 < 2 ^ 31

instance : Decidable log.FewIterators := by
  unfold FewIterators
  infer_instance

/-- The log says what the call is about. -/
def Permitted (call : EosCall) : Prop :=
  (log.named sha call).isSome = true ∧ log.FewIterators ∧
    log.Grants sha ndebug call

instance (call : EosCall) : Decidable (log.Permitted sha ndebug call) := by
  unfold Permitted
  infer_instance

end Entries

variable {sha : Bytes → Sha256} {ndebug : Bool} {log : EosLog}

theorem FewIterators.entries (few : log.FewIterators) (r : RowTable) :
    (log.eos.caches r).iteratorToObject.length < 2 ^ 31 :=
  few.1 r (mem_all r)

/-! ## One call -/

/-- The tables and iterators that were given out are what the log says. -/
structure Sound (log : EosLog) : Prop where
  consistent : log.eos.Consistent log.tableIds
  charted : (log.eos.caches .keyValue).Charted
  wellMade : AllWellMade log.eos.db.rows
  tables : ∀ entry ∈ log.tables, entry.1 ∈ log.tableIds ∧
    ∀ name, Named log.eos.db.rows entry.1 name → name = entry.2
  shows : ∀ entry ∈ log.iterators,
    log.eos.Shows entry.1 entry.2.1 entry.2.2

theorem Sound.numbered (sound : log.Sound) :
    Numbered log.eos.db.rows :=
  sound.wellMade.numbered

/-- The call is answered as the maps answer it, and changes the rows as they
change. -/
def Follows (sha : Bytes → Sha256) (ndebug : Bool) (log : EosLog)
    (call : EosCall) (storeCall : StoreCall) : Prop :=
  Ends (call.program sha ndebug) log.eos
    (fun reply final =>
      log.eos.Advanced log.tableIds call.gone
        (storeCall.run ndebug log.eos.store).2 final ∧
      (storeCall.run ndebug log.eos.store).1 = .ok reply.answer ∧
      (∀ entry ∈ call.shown reply,
        final.Shows entry.1 entry.2.1 entry.2.2) ∧
      ∀ entry ∈ call.tabled reply, Named final.db.rows entry.1 entry.2)
    (fun fault final =>
      fault.isException = true ∧
      log.eos.Advanced log.tableIds none
        (storeCall.run ndebug log.eos.store).2 final ∧
      (storeCall.run ndebug log.eos.store).1 = .error fault)

section Calls

variable {call : EosCall} {storeCall : StoreCall} {final : EosDb}
  {reply : Reply} {store : ContractStore} {r : RowTable} {name : TableName}
  {code : Name} {scope : Sha256} {table payer : Name} {buffer : Bytes}
  {id : UInt64} {block : Block} {memory : Memory} {kind : IndexKind}

/-- A call that returns neither a table nor an iterator. -/
theorem follows_of_ok (ran : call.program sha ndebug log.eos = .ok reply final)
    (runs : storeCall.run ndebug log.eos.store = (.ok reply.answer, store))
    (advanced : log.eos.Advanced log.tableIds call.gone store final)
    (noIterator : call.shown reply = none) (noTable : call.tabled reply = none) :
    log.Follows sha ndebug call storeCall := by
  apply ends_of_ok ran
  rw [runs, noIterator, noTable]
  exact ⟨advanced, rfl, by simp, by simp⟩

theorem follows_of_error {fault : Fault} (isException : fault.isException = true)
    (failed : call.program sha ndebug log.eos = .error fault final)
    (runs : storeCall.run ndebug log.eos.store = (.error fault, store))
    (advanced : log.eos.Advanced log.tableIds none store final) :
    log.Follows sha ndebug call storeCall := by
  apply ends_of_error failed
  rw [runs]
  exact ⟨isException, advanced, rfl⟩

theorem follows_of_table {tab : Int64}
    (ran : call.program sha ndebug log.eos = .ok (.table tab) final)
    (runs : storeCall.run ndebug log.eos.store = (.ok .done, store))
    (advanced : log.eos.Advanced log.tableIds call.gone store final)
    (noIterator : call.shown (.table tab) = none)
    (isTable : call.tabled (.table tab) = some (tab, name))
    (hasName : Named final.db.rows tab name) :
    log.Follows sha ndebug call storeCall := by
  apply ends_of_ok ran
  rw [runs, noIterator, isTable]
  refine ⟨advanced, rfl, by simp, ?_⟩
  intro entry isEntry
  cases isEntry
  exact hasName

theorem follows_findOrCreateTable (sound : log.Sound)
    (canLocate : log.CanLocate (code, scope, table) block) :
    log.Follows sha ndebug (.findOrCreateTable code scope table payer block)
      (.findOrCreateTable (code, scope, table) payer) := by
  rcases sound.consistent.findOrCreateTable_ok payer
    sound.charted canLocate with ⟨tab, final, ran, located, advanced⟩
  exact follows_of_table (map_apply_of_ok Reply.table ran) rfl advanced rfl rfl
    located.hasName

theorem follows_dbStoreByScope (sound : log.Sound)
    (canLocate : log.CanLocate (code, scope, table) block) :
    log.Follows sha ndebug
      (.dbStoreByScope code scope table payer buffer block)
      (.storeByScope (code, scope, table) payer buffer) := by
  have consistent := sound.consistent
  cases named : log.eos.tableNamed (code, scope, table) with
  | none =>
      rcases consistent.dbStoreByScope_ok sound.charted named
        (canLocate named) with
        ⟨final, ran, located, advanced⟩
      have isNew := store_tables_eq_none_iff.mpr named
      refine follows_of_table (map_apply_of_ok Reply.table ran) ?_ advanced rfl
        rfl located.hasName
      simp [StoreCall.run, isNew]
  | some existing =>
      have present : log.eos.tableNamed (code, scope, table) ≠ none := by
        rw [named]
        exact Option.some_ne_none existing
      have refused := dbStoreByScope_refused payer buffer block consistent.ready
        present
      have isTable :
          (log.eos.store.tables (code, scope, table)).isSome = true := by
        rw [Option.isSome_iff_ne_none, Ne, store_tables_eq_none_iff]
        exact present
      refine follows_of_error rfl
        (map_apply_of_error Reply.table refused) ?_
        (advanced_of_same consistent sound.charted)
      simp [StoreCall.run, isTable]

theorem follows_dbUpdateByScope (sound : log.Sound) {tab : Int64}
    (known : log.nameOf tab = some name)
    (stored : (log.eos.db.rows .tableId).rows[tab]? ≠ none) :
    log.Follows sha ndebug (.dbUpdateByScope tab payer buffer)
      (.updateByScope name payer buffer) := by
  rcases Option.ne_none_iff_exists'.mp stored with ⟨tableObj, hasTable⟩
  have isName : tableObj.codeScopeTable = name :=
    (sound.tables _ (log.nameOf_mem known)).2 _ ⟨tableObj, hasTable, rfl⟩
  rcases sound.consistent.dbUpdateByScope_advanced sound.charted hasTable with
    ⟨final, ran, advanced⟩
  rw [isName] at advanced
  exact follows_of_ok (map_apply_of_ok (fun _ => Reply.done) ran) rfl advanced
    rfl rfl

theorem CanStore.newEntry {newRow : Int64 → (indexOf r.type).Value}
    {content : r.Content}
    (canStore : log.CanStore r name memory)
    (ofTable : ∀ tab, r.tId (newRow tab) = tab)
    (ofKey : ∀ tab, (r.scopePrimary (newRow tab)).2 = id)
    (ofContent : ∀ tab, r.content (newRow tab) = content)
    (newId : ∀ tab, HasNewId log.eos.db.rows r (newRow tab)) :
    log.eos.NewEntry log.tableIds r name id content newRow memory :=
  ⟨canStore.1, canStore.2.1, canStore.2.2, ofTable, ofKey, ofContent, newId⟩

/-- Calls that store a row. -/
theorem follows_storeRow {newRow : Int64 → (indexOf r.type).Value}
    {content : r.Content} (sound : log.Sound)
    (few : log.FewIterators)
    (isProgram : call.program sha ndebug = Reply.iterator <$>
      storeRow r code scope table payer newRow memory)
    (isPayer : r.payer content = payer)
    (isShown : ∀ value, call.shown (.iterator value) =
      some (r, value, (code, scope, table), id))
    (noTable : ∀ value, call.tabled (.iterator value) = none)
    (notGone : call.gone = none)
    (new : log.eos.NewEntry log.tableIds r (code, scope, table) id content
      newRow memory) :
    log.Follows sha ndebug call
      (.storeRow r ((code, scope, table), id) content) := by
  have stores := sound.consistent.storeRow_advanced payer sound.charted
    sound.numbered new (few.entries r)
  rcases stores with refused | stored
  · rcases refused with ⟨taken, final, failed, advanced⟩
    have refuses : call.program sha ndebug log.eos =
        .error (.logicError uniquenessMessage) final := by
      rw [isProgram]
      exact map_apply_of_error Reply.iterator failed
    apply follows_of_error rfl refuses
    · simp only [StoreCall.run, isPayer, if_pos taken]
      rfl
    · exact advanced
  · rcases stored with ⟨notTaken, iterator, final, ran, advanced, isRow, shows⟩
    have returned : call.program sha ndebug log.eos =
        .ok (.iterator iterator) final := by
      rw [isProgram]
      exact map_apply_of_ok Reply.iterator ran
    apply ends_of_ok returned
    rw [isShown, noTable, notGone]
    simp only [StoreCall.run, isPayer, if_neg notTaken]
    refine ⟨advanced, ?_, ?_, by simp⟩
    · simp [Reply.answer, isRow]
    · intro entry isEntry
      cases isEntry
      exact shows

/-! ### Iterators -/

variable {iterator : Int} {key : StoreKey} {secondary : SecondaryKey kind}
  {bufferSize : Nat}

theorem Sound.showsKey (sound : log.Sound)
    (known : log.keyOf r iterator = some key) :
    log.eos.Shows r iterator key :=
  sound.shows _ (log.keyOf_mem known)

theorem follows_dbUpdateI64 (sound : log.Sound)
    (known : log.keyOf .keyValue iterator = some key) :
    log.Follows sha ndebug (.dbUpdateI64 iterator payer buffer)
      (.updateRow .keyValue key (payer, buffer)) := by
  have updates := (sound.showsKey known).dbUpdateI64 ndebug payer buffer
    sound.consistent sound.charted
  rcases updates with ⟨final, ran, advanced⟩
  exact follows_of_ok (map_apply_of_ok (fun _ => Reply.done) ran) rfl advanced
    rfl rfl

theorem follows_idxUpdate (sound : log.Sound)
    (known : log.keyOf (.index kind) iterator = some key) :
    log.Follows sha ndebug (.idxUpdate kind iterator payer secondary)
      (.updateRow (.index kind) key (payer, secondary)) := by
  have updates := (sound.showsKey known).idxUpdate ndebug payer secondary
    sound.consistent sound.charted
  rcases updates with ⟨final, ran, advanced⟩
  exact follows_of_ok (map_apply_of_ok (fun _ => Reply.done) ran) rfl advanced
    rfl rfl

theorem follows_dbRemoveI64 (sound : log.Sound)
    (known : log.keyOf .keyValue iterator = some key) :
    log.Follows sha ndebug (.dbRemoveI64 iterator)
      (.removeRow .keyValue key) := by
  have removes := (sound.showsKey known).dbRemoveI64 ndebug
    sound.consistent sound.charted
  rcases removes with ⟨final, ran, advanced⟩
  exact follows_of_ok (map_apply_of_ok (fun _ => Reply.done) ran) rfl advanced
    rfl rfl

theorem follows_idxRemove (sound : log.Sound)
    (known : log.keyOf (.index kind) iterator = some key) :
    log.Follows sha ndebug (.idxRemove kind iterator)
      (.removeRow (.index kind) key) := by
  have removes := (sound.showsKey known).idxRemove ndebug
    sound.consistent sound.charted
  rcases removes with ⟨final, ran, advanced⟩
  exact follows_of_ok (map_apply_of_ok (fun _ => Reply.done) ran) rfl advanced
    rfl rfl

theorem follows_dbGetI64 (sound : log.Sound)
    (known : log.keyOf .keyValue iterator = some key) :
    log.Follows sha ndebug (.dbGetI64 iterator bufferSize)
      (.getRow key bufferSize) := by
  have gets := (sound.showsKey known).dbGetI64 ndebug bufferSize
    sound.consistent
  rcases gets with ⟨size, copied, ran, isCopy⟩
  refine follows_of_ok (map_apply_of_ok
    (fun copy : Int × Bytes => Reply.copied copy.1 copy.2) ran) ?_
    (advanced_of_same sound.consistent sound.charted) rfl rfl
  simp only [StoreCall.run, isCopy, Reply.answer]

theorem follows_dbFindI64 (sound : log.Sound)
    (few : log.FewIterators) :
    log.Follows sha ndebug (.dbFindI64 code scope table id)
      (.findRow ((code, scope, table), id)) := by
  have finds := sound.consistent.dbFindI64_advanced code scope table id
    sound.charted (few.entries .keyValue) few.2
  rcases finds with ⟨value, final, ran, advanced, isRow, shows⟩
  apply ends_of_ok (map_apply_of_ok Reply.iterator ran)
  simp only [StoreCall.run, isRow, EosCall.shown, EosCall.tabled]
  refine ⟨advanced, rfl, ?_, by simp⟩
  intro entry isEntry
  split at isEntry
  · cases isEntry
    exact shows ‹_›
  · cases isEntry

/-! ### Records -/

variable {type : KeyType} {keyValue : Key type} {owner recordId : Sha256}

theorem recordOf_eq_some_iff :
    recordOf sha scope keyValue = some recordId ↔
      hashKey sha scope keyValue = .ok recordId := by
  unfold recordOf
  cases hashKey sha scope keyValue with
  | ok other => simp [Except.toOption]
  | error fault => simp [Except.toOption]

theorem RecordCall.isSome {present : Bool}
    (isRecord : log.RecordCall sha scope keyValue present)
    (hashed : recordOf sha scope keyValue = some recordId) :
    (log.eos.store.records recordId).isSome = present := by
  unfold RecordCall at isRecord
  rw [hashed, Option.map_some, Option.some.injEq] at isRecord
  rw [store_records_isSome]
  exact isRecord

theorem follows_dbStoreByKey (sound : log.Sound)
    (hashed : recordOf sha scope keyValue = some recordId)
    (isNew : ndebug = true ∨ log.RecordCall sha scope keyValue false)
    (vacant : log.eos.Vacant .tableKey block.address) :
    log.Follows sha ndebug
      (.dbStoreByKey type scope keyValue owner buffer block)
      (.storeRecord recordId owner buffer) := by
  have isHash := recordOf_eq_some_iff.mp hashed
  have consistent := sound.consistent
  cases stored : (log.eos.store.records recordId).isSome with
  | false =>
      have stores := consistent.dbStoreByKey_advanced ndebug owner buffer
        sound.charted isHash stored vacant
      rcases stores with ⟨final, ran, advanced⟩
      refine follows_of_ok (map_apply_of_ok (fun _ => Reply.done) ran) ?_
        advanced rfl rfl
      simp [StoreCall.run, stored, Reply.answer]
  | true =>
      have release : ndebug = true := by
        rcases isNew with release | absent
        · exact release
        · have isAbsent := absent.isSome hashed
          rw [stored] at isAbsent
          cases isAbsent
      have present : (log.eos.db.rows .tableKey).rows[recordId]? ≠ none := by
        rw [store_records_isSome] at stored
        exact Option.isSome_iff_ne_none.mp stored
      have refused : dbStoreByKey sha ndebug scope keyValue owner buffer block
          log.eos = _ :=
        dbStoreByKey_of_present consistent.ready isHash present
      rw [release] at refused ⊢
      refine follows_of_error rfl
        (map_apply_of_error (fun _ => Reply.done) refused) ?_
        (advanced_of_same consistent sound.charted)
      simp [StoreCall.run, stored]

theorem follows_dbUpdateByKey (sound : log.Sound)
    (hashed : recordOf sha scope keyValue = some recordId)
    (isRecord : log.RecordCall sha scope keyValue true) :
    log.Follows sha ndebug (.dbUpdateByKey type scope keyValue owner buffer)
      (.updateRecord recordId owner buffer) := by
  have stored := isRecord.isSome hashed
  have updates := sound.consistent.dbUpdateByKey_advanced ndebug owner buffer
    sound.charted (recordOf_eq_some_iff.mp hashed) stored
  rcases updates with ⟨final, ran, advanced⟩
  refine follows_of_ok (map_apply_of_ok (fun _ => Reply.done) ran) ?_ advanced
    rfl rfl
  simp [StoreCall.run, stored, Reply.answer]

theorem follows_dbRemoveByKey (sound : log.Sound)
    (hashed : recordOf sha scope keyValue = some recordId)
    (isRecord : log.RecordCall sha scope keyValue true) :
    log.Follows sha ndebug (.dbRemoveByKey type scope keyValue)
      (.removeRecord recordId) := by
  have stored := isRecord.isSome hashed
  have removes := sound.consistent.dbRemoveByKey_advanced ndebug
    sound.charted (recordOf_eq_some_iff.mp hashed) stored
  rcases removes with ⟨final, ran, advanced⟩
  refine follows_of_ok (map_apply_of_ok (fun _ => Reply.done) ran) ?_ advanced
    rfl rfl
  simp [StoreCall.run, stored, Reply.answer]

theorem follows_dbFindByKey (sound : log.Sound)
    (hashed : recordOf sha scope keyValue = some recordId) :
    log.Follows sha ndebug (.dbFindByKey type scope keyValue)
      (.findRecord recordId) :=
  follows_of_ok
    (map_apply_of_ok Reply.found (dbFindByKey_of_hashKey
      sound.consistent.ready (recordOf_eq_some_iff.mp hashed)))
    rfl (advanced_of_same sound.consistent sound.charted) rfl rfl

/-- Every call that may be made and that the log can name. -/
theorem follows_call (sound : log.Sound)
    (permitted : log.Permitted sha ndebug call)
    (named : log.named sha call = some storeCall) :
    log.Follows sha ndebug call storeCall := by
  have few := permitted.2.1
  have grants := permitted.2.2
  cases call with
  | findOrCreateTable code scope table payer block =>
      cases named
      exact follows_findOrCreateTable sound grants
  | dbStoreByScope code scope table payer buffer block =>
      cases named
      exact follows_dbStoreByScope sound grants
  | dbUpdateByScope tab payer buffer =>
      rcases Option.map_eq_some_iff.mp named with ⟨name, known, isCall⟩
      subst isCall
      exact follows_dbUpdateByScope sound known grants
  | dbStoreI64 code scope table payer id buffer memory =>
      cases named
      exact follows_storeRow (r := .keyValue) sound few rfl rfl
        (fun _ => rfl) (fun _ => rfl) rfl
        (grants.newEntry (fun _ => rfl) (fun _ => rfl) (fun _ => rfl)
          fun _ => rfl)
  | dbUpdateI64 iterator payer buffer =>
      rcases Option.map_eq_some_iff.mp named with ⟨key, known, isCall⟩
      subst isCall
      exact follows_dbUpdateI64 sound known
  | dbRemoveI64 iterator =>
      rcases Option.map_eq_some_iff.mp named with ⟨key, known, isCall⟩
      subst isCall
      exact follows_dbRemoveI64 sound known
  | dbGetI64 iterator bufferSize =>
      rcases Option.map_eq_some_iff.mp named with ⟨key, known, isCall⟩
      subst isCall
      exact follows_dbGetI64 sound known
  | dbFindI64 code scope table id =>
      cases named
      exact follows_dbFindI64 sound few
  | idxStore kind code scope table payer id value memory =>
      cases named
      exact follows_storeRow (r := .index kind) sound few rfl rfl
        (fun _ => rfl) (fun _ => rfl) rfl
        (grants.1.newEntry (fun _ => rfl) (fun _ => rfl) (fun _ => rfl)
          fun _ => grants.2)
  | idxUpdate kind iterator payer secondary =>
      rcases Option.map_eq_some_iff.mp named with ⟨key, known, isCall⟩
      subst isCall
      exact follows_idxUpdate sound known
  | idxRemove kind iterator =>
      rcases Option.map_eq_some_iff.mp named with ⟨key, known, isCall⟩
      subst isCall
      exact follows_idxRemove sound known
  | dbStoreByKey type scope keyValue owner buffer block =>
      rcases Option.map_eq_some_iff.mp named with ⟨recordId, hashed, isCall⟩
      subst isCall
      exact follows_dbStoreByKey sound hashed grants.1 grants.2
  | dbUpdateByKey type scope keyValue owner buffer =>
      rcases Option.map_eq_some_iff.mp named with ⟨recordId, hashed, isCall⟩
      subst isCall
      exact follows_dbUpdateByKey sound hashed grants
  | dbRemoveByKey type scope keyValue =>
      rcases Option.map_eq_some_iff.mp named with ⟨recordId, hashed, isCall⟩
      subst isCall
      exact follows_dbRemoveByKey sound hashed grants
  | dbFindByKey type scope keyValue =>
      rcases Option.map_eq_some_iff.mp named with ⟨recordId, hashed, isCall⟩
      subst isCall
      exact follows_dbFindByKey sound hashed
  | _ => cases named

end Calls

/-! ## Runs -/

section Steps

variable {call : EosCall} {storeCall : StoreCall} {final : EosDb}
  {answer : Except Fault Answer}

theorem named_onRows (named : log.named sha call = some storeCall) :
    call.onRows = true := by
  cases call with
  | startUndoSession => cases named
  | undo place => cases named
  | squash => cases named
  | commit revision => cases named
  | undoAll place => cases named
  | setRevision revision => cases named
  | _ => rfl

/-- What the log says after any call. -/
theorem Sound.entered {removed : Option (RowTable × Int)}
    {store : ContractStore} (sound : log.Sound)
    (advanced : log.eos.Advanced log.tableIds removed store final)
    (steps : RowSteps log.eos.db final.db)
    {tables : List (Int64 × TableName)}
    (areTables : ∀ entry ∈ tables, Named final.db.rows entry.1 entry.2)
    {iterators : List (RowTable × Int × StoreKey)}
    (areShown : ∀ entry ∈ iterators, final.Shows entry.1 entry.2.1 entry.2.2) :
    Sound { log.entered sha call answer final with
      tables := tables ++ log.tables
      iterators := iterators ++ log.iterators.filter fun entry =>
        removed ≠ some (entry.1, entry.2.1) } where
  consistent := advanced.consistent
  charted := advanced.charted
  wellMade := RowSteps.wellMade steps sound.consistent.ready sound.wellMade
  tables := by
    intro entry member
    rcases List.mem_append.mp member with isNew | isOld
    · have hasName := areTables entry isNew
      constructor
      · rcases hasName with ⟨tableObj, hasTable, _⟩
        apply advanced.consistent.tableIds
        rw [hasTable]
        exact Option.some_ne_none tableObj
      · exact fun name other => other.name_unique hasName
    · have known := sound.tables entry isOld
      refine ⟨List.mem_append_right _ known.1, ?_⟩
      intro name hasName
      exact known.2 name (advanced.named_of_used known.1 hasName)
  shows := by
    intro entry member
    rcases List.mem_append.mp member with isNew | isOld
    · exact areShown entry isNew
    · have stays := List.mem_filter.mp isOld
      apply advanced.shows _ _ _ (sound.shows entry stays.1)
      simpa using stays.2

/-- The log after a call that may be made and that it can name. -/
structure Next (ndebug : Bool) (log : EosLog) (storeCall : StoreCall)
    (next : EosLog) : Prop where
  sound : next.Sound
  store : next.eos.store = (storeCall.run ndebug log.eos.store).2
  answers : next.answers =
    log.answers ++ [(storeCall.run ndebug log.eos.store).1]
  made : next.made = log.made ++ [storeCall]
  steps : RowSteps log.eos.db next.eos.db
  tableIds : next.tableIds = next.eos.liveTables ++ log.tableIds

theorem next_step (sound : log.Sound)
    (permitted : log.Permitted sha ndebug call)
    (named : log.named sha call = some storeCall) :
    ∃ next, log.step sha ndebug call = some next ∧
      log.Next ndebug storeCall next := by
  have follows := follows_call sound permitted named
  have loose := loose_call sha ndebug (named_onRows named)
    sound.consistent.ready
  have oneMore : ∀ answer final,
      (log.entered sha call answer final).made = log.made ++ [storeCall] := by
    intro answer final
    simp [EosLog.entered, named]
  cases ran : call.program sha ndebug log.eos with
  | ok reply final =>
      rcases follows.of_ok ran with ⟨advanced, answers, areShown, areTables⟩
      have steps := (loose.of_ok ran).1
      refine ⟨log.returned sha call reply final, ?_, ?_⟩
      · simp only [step, ran]
      · constructor
        · exact sound.entered advanced steps
            (fun entry member => areTables entry (Option.mem_toList.mp member))
            fun entry member => areShown entry (Option.mem_toList.mp member)
        · exact advanced.store
        · rw [answers]
          rfl
        · exact oneMore (.ok reply.answer) final
        · exact steps
        · rfl
  | error fault final =>
      rcases follows.of_error ran with ⟨isException, advanced, answers⟩
      have steps := loose.of_error ran isException
      refine ⟨log.entered sha call (.error fault) final, ?_, ?_⟩
      · simp only [step, ran, isException, if_true]
      · constructor
        · have entered : Sound { log.entered sha call (.error fault) final with
              tables := [] ++ log.tables
              iterators := [] ++ log.iterators.filter fun entry =>
                none ≠ some (entry.1, entry.2.1) } :=
            sound.entered advanced steps (by simp) (by simp)
          simpa [EosLog.entered] using entered
        · exact advanced.store
        · rw [answers]
          rfl
        · exact oneMore (.error fault) final
        · exact steps
        · rfl

end Steps

/-- The log is right. -/
structure Accurate (ndebug : Bool) (log : EosLog) : Prop where
  sound : log.Sound
  store : (log.eos.store, log.answers) =
    ContractStore.transcript ndebug log.made

theorem accurate_step {call : EosCall} (accurate : log.Accurate ndebug)
    (permitted : log.Permitted sha ndebug call) :
    ∃ next storeCall, log.step sha ndebug call = some next ∧
      next.Accurate ndebug ∧ next.made = log.made ++ [storeCall] := by
  rcases Option.isSome_iff_exists.mp permitted.1 with ⟨storeCall, named⟩
  rcases next_step accurate.sound permitted named with ⟨next, stepped, isNext⟩
  refine ⟨next, storeCall, stepped, ⟨isNext.sound, ?_⟩, isNext.made⟩
  have isStore : log.eos.store =
      (ContractStore.transcript ndebug log.made).1 :=
    congrArg Prod.fst accurate.store
  have areAnswers : log.answers =
      (ContractStore.transcript ndebug log.made).2 :=
    congrArg Prod.snd accurate.store
  rw [isNext.made, isNext.store, isNext.answers,
    ContractStore.transcript_concat, isStore, areAnswers]

/-- Every permitted run comes to its end, and every call is written down. -/
theorem accurate_run {calls : List EosCall} (accurate : log.Accurate ndebug)
    (permitted : Runs.AllowedFrom (step sha ndebug) (Permitted sha ndebug)
      log calls) :
    ∃ final later, Runs.run (step sha ndebug) log calls = some final ∧
      final.Accurate ndebug ∧ final.made = log.made ++ later ∧
      later.length = calls.length := by
  induction calls generalizing log with
  | nil => exact ⟨log, [], rfl, accurate, by simp, rfl⟩
  | cons call rest inductionHypothesis =>
      rcases accurate_step accurate permitted.1 with
        ⟨next, storeCall, stepped, nextAccurate, isMade⟩
      rcases inductionHypothesis nextAccurate (permitted.2 next stepped) with
        ⟨final, later, finished, finalAccurate, areMade, sameLength⟩
      refine ⟨final, storeCall :: later, ?_, finalAccurate, ?_, ?_⟩
      · rw [Runs.run_cons, stepped]
        exact finished
      · rw [areMade, isMade, List.append_assoc, List.singleton_append]
      · simp [sameLength]

theorem store_of_noRows {contents : Contents}
    (noRow : ∀ (t : TableType) (id : (indexOf t).Id),
      (contents t).rows[id]? = none) :
    storeOf contents = .empty := by
  apply ContractStore.ext
  · funext name
    apply tables_eq_none_iff.mpr
    intro tab named
    rcases named with ⟨tableObj, found, _⟩
    cases (noRow .tableId tab).symm.trans found
  · funext r key
    apply rows_eq_none_iff.mpr
    intro id row found
    cases (noRow r.type id).symm.trans found
  · funext id
    simp only [storeOf, MultiIndex.find]
    rw [noRow .tableKey id]
    rfl

theorem emptyTables_wellMade : AllWellMade emptyTables.rows := by
  intro t id value found
  have isEmpty : (emptyTables.rows t).rows[id]? = none :=
    MultiIndex.empty_row id
  cases isEmpty.symm.trans found

theorem start_sound (place : (t : TableType) → (indexOf t).Id → Address) :
    (start place).Sound where
  consistent := EosWithIterators.start_sound place
  charted := IteratorCache.charted_empty
  wellMade := emptyTables_wellMade
  tables := by simp [start]
  shows := by simp [start]

theorem start_accurate (place : (t : TableType) → (indexOf t).Id → Address) :
    (start place).Accurate ndebug where
  sound := start_sound place
  store := by
    have isEmpty : (start place).eos.store = ContractStore.empty :=
      store_of_noRows fun _ id => MultiIndex.empty_row id
    rw [isEmpty]
    rfl

/-- An iterator that was not removed is one of a row that the maps have. -/
theorem Sound.iterators (sound : log.Sound)
    {entry : RowTable × Int × StoreKey} (member : entry ∈ log.iterators) :
    (log.eos.store.rows entry.1 entry.2.2).isSome = true := by
  rcases sound.shows entry member with
    ⟨position, id, row, _, _, found, hasKey⟩
  have isRow := rows_eq_of_found found hasKey
  exact Option.isSome_iff_exists.mpr ⟨_, isRow⟩

/-- The rows of an `eos_db` on empty tables are the maps, and every call answers
what the maps answer: rows that are refused, found and read, also through
iterators, and tables that come with a first row and go with a last one. -/
theorem calls_are_maps (sha : Bytes → Sha256) (ndebug : Bool)
    (place : (t : TableType) → (indexOf t).Id → Address)
    (calls : List EosCall)
    (permitted : Runs.AllowedFrom (step sha ndebug) (Permitted sha ndebug)
      (start place) calls) :
    ∃ final, Runs.run (step sha ndebug) (start place) calls = some final ∧
      final.made.length = calls.length ∧
      (final.eos.store, final.answers) =
        ContractStore.transcript ndebug final.made ∧
      ∀ entry ∈ final.iterators,
        (final.eos.store.rows entry.1 entry.2.2).isSome = true := by
  rcases accurate_run (start_accurate place) permitted with
    ⟨final, later, finished, accurate, areMade, sameLength⟩
  refine ⟨final, finished, ?_, accurate.store,
    fun entry => accurate.sound.iterators⟩
  rw [areMade]
  exact sameLength

/-- A row that is refused because another table has its primary key, a row of a
secondary index that keeps its table, and a record. -/
def mixedCalls : List EosCall :=
  [.dbStoreI64 ⟨1⟩ 2 ⟨3⟩ ⟨4⟩ 7 [10, 11] ⟨⟨16, 5⟩, ⟨32, 0⟩⟩,
    .dbStoreI64 ⟨1⟩ 2 ⟨9⟩ ⟨4⟩ 7 [12] ⟨⟨48, 6⟩, ⟨64, 0⟩⟩,
    .idxStore .idx64 ⟨1⟩ 2 ⟨9⟩ ⟨4⟩ 7 100 ⟨⟨48, 6⟩, ⟨80, 9⟩⟩,
    .dbUpdateI64 0 ⟨5⟩ [13, 14, 15], .dbGetI64 0 2,
    .dbFindI64 ⟨1⟩ 2 ⟨3⟩ 8, .dbRemoveI64 0, .idxRemove .idx64 0,
    .dbStoreByScope ⟨1⟩ 2 ⟨9⟩ ⟨4⟩ [1] ⟨96, 8⟩,
    .dbStoreByKey .stdString 2 [107] 4 [1] ⟨112, 0⟩,
    .dbUpdateByKey .stdString 2 [107] 4 [2]]

theorem calls_are_maps_mixed :
    ∃ final, Runs.run (step (fun _ => 0) false) (start fun _ _ => 0)
        mixedCalls = some final ∧
      final.made.length = 11 ∧
      (final.eos.store, final.answers) =
        ContractStore.transcript false final.made ∧
      ∀ entry ∈ final.iterators,
        (final.eos.store.rows entry.1 entry.2.2).isSome = true :=
  calls_are_maps (fun _ => 0) false (fun _ _ => 0) mixedCalls
    (by decide +kernel)

/-- Calls that do not name a table leave all of it as it is, although its rows
stand in one index with those of all tables, and share their ids. -/
theorem tables_stand_apart (sha : Bytes → Sha256) (ndebug : Bool)
    (place : (t : TableType) → (indexOf t).Id → Address)
    (before after : List EosCall)
    (permitted : Runs.AllowedFrom (step sha ndebug) (Permitted sha ndebug)
      (start place) (before ++ after)) :
    ∃ middle final later,
      Runs.run (step sha ndebug) (start place) before = some middle ∧
      Runs.run (step sha ndebug) middle after = some final ∧
      final.made = middle.made ++ later ∧ later.length = after.length ∧
      ∀ name, (∀ call ∈ later, call.table ≠ some name) →
        ContractStore.SameTable name middle.eos.store final.eos.store := by
  rcases Runs.allowedFrom_append_iff.mp permitted with ⟨first, second⟩
  rcases accurate_run (start_accurate place) first with
    ⟨middle, earlier, reached, accurate, _, _⟩
  rcases accurate_run accurate (second middle reached) with
    ⟨final, later, finished, finalAccurate, areMade, sameLength⟩
  refine ⟨middle, final, later, reached, finished, areMade, sameLength, ?_⟩
  intro name different
  have apart := ContractStore.sameTable_transcript ndebug middle.made different
  rw [← areMade, ← accurate.store, ← finalAccurate.store] at apart
  exact apart

theorem tables_stand_apart_mixed :
    ∃ middle final later,
      Runs.run (step (fun _ => 0) false) (start fun _ _ => 0)
        (mixedCalls.take 3) = some middle ∧
      Runs.run (step (fun _ => 0) false) middle (mixedCalls.drop 3) =
        some final ∧
      final.made = middle.made ++ later ∧ later.length = 8 ∧
      ∀ name, (∀ call ∈ later, call.table ≠ some name) →
        ContractStore.SameTable name middle.eos.store final.eos.store :=
  tables_stand_apart (fun _ => 0) false (fun _ _ => 0) (mixedCalls.take 3)
    (mixedCalls.drop 3) (by decide +kernel)

end EosLog

end StateDatabase
