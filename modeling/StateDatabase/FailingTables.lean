import Mathlib
import StateDatabase.FailingCalls
import StateDatabase.EmptiedTables
import StateDatabase.TableValues

/-!
# Contract tables in a full segment

A call of `eos_db` makes several row operations, and each of them may run out of
memory.  A call that throws does not take back the operations before:
`db_store_i64` leaves a row that its table does not count, and `db_remove_i64` a
table that counts one row too few.
-/

namespace StateDatabase

open Programs GenericIndex

/-! ## Rows and counts -/

/-- The same payer and the same value; a row of a secondary index has a key in
place of a value. -/
def SamePayerAndValue : (t : TableType) → (indexOf t).Value →
    (indexOf t).Value → Prop
  | .tableId, left, right =>
      left.payer = right.payer ∧ left.value = right.value
  | .keyValue, left, right =>
      left.payer = right.payer ∧ left.value = right.value
  | .index _, left, right =>
      left.payer = right.payer ∧ left.secondaryKey = right.secondaryKey
  | .tableKey, left, right =>
      left.payer = right.payer ∧ left.value = right.value

theorem samePayerAndValue_refl (t : TableType) (row : (indexOf t).Value) :
    SamePayerAndValue t row row := by
  cases t with
  | tableId => exact ⟨rfl, rfl⟩
  | keyValue => exact ⟨rfl, rfl⟩
  | index kind => exact ⟨rfl, rfl⟩
  | tableKey => exact ⟨rfl, rfl⟩

/-- Every row is still stored, with the payer and the value that it had. -/
def KeepsRows (before after : Contents) : Prop :=
  ∀ (t : TableType) (id : (indexOf t).Id) (row : (indexOf t).Value),
    (before t).find id = some row →
      ∃ left, (after t).find id = some left ∧ SamePayerAndValue t row left

section Contents

variable {contents : Contents} {t : TableType}

theorem keepsRows_refl (contents : Contents) : KeepsRows contents contents :=
  fun t _ row found => ⟨row, found, samePayerAndValue_refl t row⟩

/-- One table has changed. -/
theorem keepsRows_update {rows : MultiIndex (indexOf t)}
    (keeps : ∀ (id : (indexOf t).Id) (row : (indexOf t).Value),
      (contents t).rows[id]? = some row →
        ∃ left, rows.rows[id]? = some left ∧ SamePayerAndValue t row left) :
    KeepsRows contents (Function.update contents t rows) := by
  intro other id row found
  by_cases same : other = t
  · cases same
    rw [Function.update_self]
    exact keeps id row found
  · rw [Function.update_of_ne same]
    exact ⟨row, found, samePayerAndValue_refl other row⟩

theorem keepsRows_emplace {value : (indexOf t).Value}
    {inserted : MultiIndex (indexOf t)}
    (success : (contents t).emplace value = some inserted) :
    KeepsRows contents (Function.update contents t inserted) := by
  obtain ⟨absent, entries⟩ := MultiIndex.emplace_some success
  apply keepsRows_update
  intro id row found
  have different : (indexOf t).id value ≠ id := by
    intro same
    rw [same, found] at absent
    cases absent
  refine ⟨row, ?_, samePayerAndValue_refl t row⟩
  rw [entries, if_neg different, found]

/-- One row has changed. -/
theorem keepsRows_changed_iff {rows : MultiIndex (indexOf t)}
    {id : (indexOf t).Id} {row new : (indexOf t).Value}
    (found : (contents t).rows[id]? = some row)
    (entries : ∀ tested : (indexOf t).Id, rows.rows[tested]? =
      if id = tested then some new else (contents t).rows[tested]?) :
    KeepsRows contents (Function.update contents t rows) ↔
      SamePayerAndValue t row new := by
  constructor
  · intro keeps
    obtain ⟨left, isLeft, same⟩ := keeps t id row found
    rw [Function.update_self] at isLeft
    change rows.rows[id]? = some left at isLeft
    rw [entries, if_pos rfl] at isLeft
    cases isLeft
    exact same
  · intro same
    apply keepsRows_update
    intro tested other isOther
    by_cases equal : id = tested
    · rw [← equal, found] at isOther
      cases isOther
      exact ⟨new, by rw [entries, if_pos equal], same⟩
    · refine ⟨other, ?_, samePayerAndValue_refl t other⟩
      rw [entries, if_neg equal, isOther]

theorem not_keepsRows_of_missing {after : Contents} {id : (indexOf t).Id}
    {row : (indexOf t).Value} (found : (contents t).rows[id]? = some row)
    (missing : (after t).rows[id]? = none) : ¬ KeepsRows contents after := by
  intro keeps
  obtain ⟨left, isLeft, _⟩ := keeps t id row found
  change (after t).rows[id]? = some left at isLeft
  rw [missing] at isLeft
  cases isLeft

/-- A row that its table does not count. -/
theorem not_balanced_of_uncounted {r : RowTable}
    {row : (indexOf r.type).Value} {rows : MultiIndex (indexOf r.type)}
    {tableObj : TableIdObject} (balanced : Balanced contents)
    (hasTable : (contents .tableId).rows[r.tId row]? = some tableObj)
    (success : (contents r.type).emplace row = some rows) :
    ¬ Balanced (Function.update contents r.type rows) := by
  intro stillBalanced
  have before := balanced.counted _ _ hasTable
  have after := stillBalanced.counted (r.tId row) tableObj (by
    rw [Function.update_of_ne (EosDb.type_ne_tableId r).symm]
    exact hasTable)
  rw [rowsOf_stored success, if_pos rfl] at after
  omega

/-- A table with another count and the rows that it had. -/
theorem not_balanced_of_miscounted {tab : Int64}
    {tables : MultiIndex tableIdMultiIndex} {tableObj new : TableIdObject}
    (balanced : Balanced contents)
    (hasTable : (contents .tableId).rows[tab]? = some tableObj)
    (isNew : tables.rows[tab]? = some new)
    (different : new.count ≠ tableObj.count) :
    ¬ Balanced (Function.update contents .tableId tables) := by
  intro stillBalanced
  have before := balanced.counted _ _ hasTable
  have after := stillBalanced.counted tab new (by
    rw [Function.update_self]
    exact isNew)
  rw [rowsOf_update_tableId, ← before] at after
  exact different (UInt32.toNat_inj.mp after)

theorem type_ne_tableKey (r : RowTable) : r.type ≠ .tableKey := by
  cases r with
  | keyValue => decide
  | index kind => exact nofun

/-- The records by key belong to no table. -/
theorem Balanced.keysChanged (balanced : Balanced contents)
    (records : MultiIndex tableKeyMultiIndex) :
    Balanced (Function.update contents .tableKey records) := by
  have sameRows : ∀ r : RowTable,
      Function.update contents .tableKey records r.type = contents r.type :=
    fun r => Function.update_of_ne (type_ne_tableKey r) _ _
  have sameTables : Function.update contents .tableKey records .tableId =
      contents .tableId := Function.update_of_ne (by decide) _ _
  have sameNumbers : ∀ tab, rowsOf (Function.update contents .tableKey
      records) tab = rowsOf contents tab := by
    intro tab
    refine congrArg List.sum (List.map_congr_left fun r _ => ?_)
    rw [sameRows]
  constructor
  · intro r id row found
    rw [sameRows] at found
    rw [sameTables]
    exact balanced.owned r id row found
  · intro tab tableObj found
    rw [sameTables] at found
    rw [sameNumbers]
    exact balanced.counted tab tableObj found

end Contents

/-- Every table counts its rows, and every row has the payer and the value that
it had. -/
def Intact (eos final : EosDb) : Prop :=
  Balanced final.db.rows ∧ KeepsRows eos.db.rows final.db.rows

theorem intact_of_db {eos final : EosDb} (balanced : Balanced eos.db.rows)
    (same : final.db = eos.db) : Intact eos final := by
  rw [Intact, same]
  exact ⟨balanced, keepsRows_refl _⟩

namespace LimitedCall

open Limited

/-- The row that `db_store_i64` builds for a table. -/
def rowFor (tab : Int64) (payer : Name) (id : UInt64) (buffer : Bytes) :
    KeyValueObject :=
  { id := id.toInt64
    tId := tab
    primaryKey := id
    payer := payer
    value := buffer }

/-- The call gets to a change that it does not finish: a store to its row, a
removal to the count of the table; an update to an `assign` that throws after
the payer was written, or in a container that erases the row. -/
def Spoils (refuses : TableType → IndexSite → Bool) (thrown : ThrownModifier)
    (sha : Bytes → Sha256) (ndebug : Bool) (eos : EosDb) : LimitedCall → Prop
  | .dbStoreI64 code scope table payer id buffer memory =>
      refuses .keyValue .element = false ∧
      match eos.tableNamed (code, scope, table) with
      | some existing => (eos.db.rows .keyValue).Admits
          (rowFor existing.id payer id buffer)
      | none =>
          let new := EosDb.newTable code scope table payer [] memory.table
          (refuses .tableId .element = false ∧
            (eos.db.rows .tableId).Admits new ∧
            ¬ NotRecorded refuses .tableId (onCreateSite new) eos) ∧
          (eos.db.rows .keyValue).Admits (rowFor new.id payer id buffer)
  | .dbRemoveI64 iterator =>
      ∃ tableObj ∈ EosDb.tableBehind ndebug .keyValue iterator eos,
        ¬ NotRecorded refuses .tableId (onModifySite tableObj) eos
  | .dbUpdateI64 iterator _ _ =>
      ∃ row ∈ EosDb.rowBehind ndebug .keyValue iterator eos,
        refuses .keyValue .modifier = true ∧
        ¬ NotRecorded refuses .keyValue (onModifySite row) eos ∧
        thrown = .erasesElement
  | .dbUpdateByScope tab _ _ =>
      ∃ tableObj ∈ (eos.db.rows .tableId).find tab,
        refuses .tableId .modifier = true ∧
        ¬ NotRecorded refuses .tableId (onModifySite tableObj) eos ∧
        thrown = .erasesElement
  | .dbUpdateByKey _ scope key payer _ =>
      ∃ tableKey record, EosDb.hashKey sha scope key = .ok tableKey ∧
        (eos.db.rows .tableKey).find tableKey = some record ∧
        refuses .tableKey .modifier = true ∧
        ¬ NotRecorded refuses .tableKey (onModifySite record) eos ∧
        (thrown = .erasesElement ∨ record.payer ≠ payer)

variable {refuses : TableType → IndexSite → Bool} {thrown : ThrownModifier}
  {sha : Bytes → Sha256} {ndebug : Bool} {eos : EosDb}

/-! ### Stores -/

variable (refuses thrown) in
/-- The row is stored in a table that is there. -/
theorem ends_storeInTable (obj : KeyValueObject) (block : Block)
    {tableObj : TableIdObject} (ready : eos.db.Ready)
    (balanced : Balanced eos.db.rows)
    (hasTable : (eos.db.rows .tableId).rows[obj.tId]? = some tableObj) :
    Ends (do
        createObject refuses .keyValue block obj
        modifyObject refuses thrown .tableId obj.tId fun t =>
          .ok { t with count := t.count + 1 }
        let _ ← EosDb.cacheTable .keyValue obj.tId
        EosDb.addObject .keyValue obj.id) eos
      (fun _ _ => True)
      (fun _ final =>
        (final.db = eos.db ∧ ¬ (refuses .keyValue .element = false ∧
          (eos.db.rows .keyValue).Admits obj)) ∨
        (refuses .keyValue .element = false ∧
          (eos.db.rows .keyValue).Admits obj) ∧
          ¬ Balanced final.db.rows) := by
  have uncounted : ∀ {final : EosDb} {inserted : MultiIndex keyValueIndex},
      (eos.db.rows .keyValue).emplace obj = some inserted →
      Database.Wrote .keyValue inserted eos.db final.db →
        ¬ Balanced final.db.rows := by
    intro final inserted success wrote
    rw [wrote.rows]
    exact not_balanced_of_uncounted (r := .keyValue) balanced hasTable success
  apply ends_bind
  apply (ends_createObject ready).imp
  · rintro _ middle ⟨⟨element, _⟩, inserted, success, wrote⟩
    have stillTable : (middle.db.rows .tableId).rows[obj.tId]? =
        some tableObj := by
      rw [wrote.rows, Function.update_of_ne (by decide)]
      exact hasTable
    apply ends_bind
    by_cases recorded : NotRecorded refuses .tableId (onModifySite tableObj)
        middle
    · apply ends_of_error
        (modifyObject_notRecorded thrown _ wrote.ready stillTable recorded)
      exact Or.inr ⟨⟨element, MultiIndex.admits_of_emplace success⟩,
        uncounted success wrote⟩
    · obtain ⟨db, _, counts, _⟩ := modifyObject_ok (t := .tableId) thrown
        (fun t => .ok { t with count := t.count + 1 })
        wrote.ready stillTable recorded rfl (interchangeable_count tableObj _)
      exact ends_of_ok counts trivial
  · rintro _ final (⟨same, notInserted⟩ |
      ⟨⟨element, _⟩, inserted, success, wrote⟩)
    · exact Or.inl ⟨same, notInserted⟩
    · exact Or.inr ⟨⟨element, MultiIndex.admits_of_emplace success⟩,
        uncounted success wrote⟩

theorem intact_dbStoreI64_iff {code : Name} {scope : Sha256}
    {table payer : Name} {id : UInt64} {buffer : Bytes} {memory : Memory}
    (ready : eos.db.Ready) (balanced : Balanced eos.db.rows) :
    Ends (Limited.dbStoreI64 refuses thrown code scope table payer id buffer memory) eos
      (fun _ _ => True)
      (fun _ final => Intact eos final ↔
        ¬ Spoils refuses thrown sha ndebug eos
          (.dbStoreI64 code scope table payer id buffer memory)) := by
  have finds := EosDb.findTable_apply ready code scope table
  change _ = EStateM.Result.ok (eos.tableNamed (code, scope, table)) eos at finds
  cases named : eos.tableNamed (code, scope, table) with
  | some existing =>
      rw [named] at finds
      have locates : findOrCreateTable refuses code scope table payer
          memory.table eos = .ok existing.id eos := by
        rw [findOrCreateTable, bind_apply_of_ok _ finds]
        rfl
      have hasTable := (MultiIndex.findBy_some named).1
      apply ends_bind
      apply ends_of_ok locates
      have stores := ends_storeInTable refuses thrown
        (rowFor existing.id payer id buffer) memory.row ready balanced hasTable
      apply stores.imp
      · exact fun _ _ _ => trivial
      · intro _ final outcome
        simp only [Spoils, named]
        rcases outcome with ⟨same, notInserted⟩ | ⟨isInserted, unbalanced⟩
        · exact iff_of_true (intact_of_db balanced same) notInserted
        · exact iff_of_false (fun intact => unbalanced intact.1)
            (not_not_intro isInserted)
  | none =>
      rw [named] at finds
      apply ends_bind
      rw [Limited.findOrCreateTable]
      apply ends_bind
      apply ends_of_ok finds
      apply ends_bind
      apply (ends_createObject ready).imp
      · rintro _ middle ⟨⟨element, recorded⟩, tables, success, wrote⟩
        apply ends_pure
        have admits := MultiIndex.admits_of_emplace success
        have middleBalanced : Balanced middle.db.rows := by
          rw [wrote.rows]
          exact balanced.tableCreated success rfl
        have keeps : KeepsRows eos.db.rows middle.db.rows := by
          rw [wrote.rows]
          exact keepsRows_emplace success
        have sameRows : middle.db.rows .keyValue = eos.db.rows .keyValue := by
          rw [wrote.rows, Function.update_of_ne (by decide)]
        have hasTable : (middle.db.rows .tableId).rows[memory.table.unset]? =
            some (EosDb.newTable code scope table payer [] memory.table) := by
          rw [wrote.rows, Function.update_self,
            (MultiIndex.emplace_some success).2]
          exact if_pos rfl
        have stores := ends_storeInTable refuses thrown
          (rowFor memory.table.unset payer id buffer) memory.row wrote.ready
          middleBalanced hasTable
        apply stores.imp
        · exact fun _ _ _ => trivial
        · intro _ final outcome
          rw [sameRows] at outcome
          simp only [Spoils, named]
          rcases outcome with
            ⟨same, notInserted⟩ | ⟨⟨rowElement, rowAdmits⟩, unbalanced⟩
          · apply iff_of_true
            · rw [Intact, same]
              exact ⟨middleBalanced, keeps⟩
            · exact fun spoils => notInserted ⟨spoils.1, spoils.2.2⟩
          · exact iff_of_false (fun intact => unbalanced intact.1)
              (not_not_intro ⟨rowElement, ⟨element, admits, recorded⟩,
                rowAdmits⟩)
      · rintro _ final (⟨same, notInserted⟩ |
          ⟨⟨_, notRecorded⟩, tables, success, wrote⟩)
        · apply iff_of_true (intact_of_db balanced same)
          simp only [Spoils, named]
          exact fun spoils =>
            notInserted ⟨spoils.2.1.1, spoils.2.1.2.1⟩
        · apply iff_of_true
          · rw [Intact, wrote.rows]
            exact ⟨balanced.tableCreated success rfl,
              keepsRows_emplace success⟩
          · simp only [Spoils, named]
            exact fun spoils => spoils.2.1.2.2 notRecorded

/-! ### Removals -/

/-- The row and the table behind the iterator. -/
theorem ends_removeI64Row {row tab : Int64} {obj : KeyValueObject}
    {tableObj : TableIdObject} (ready : eos.db.Ready)
    (balanced : Balanced eos.db.rows)
    (found : (eos.db.rows .keyValue).rows[row]? = some obj)
    (hasTable : (eos.db.rows .tableId).rows[tab]? = some tableObj) :
    Ends (removeI64Row refuses thrown row tab) eos
      (fun _ _ => True)
      (fun _ final => Intact eos final ↔
        NotRecorded refuses .tableId (onModifySite tableObj) eos) := by
  by_cases recorded : NotRecorded refuses .tableId (onModifySite tableObj) eos
  · have stops := modifyObject_notRecorded (t := .tableId) thrown
      (fun t => .ok { t with count := t.count - 1 }) ready hasTable recorded
    apply ends_of_error (bind_apply_of_error _ stops)
    exact iff_of_true (intact_of_db balanced rfl) recorded
  obtain ⟨db, tables, counts, wrote, entries⟩ :=
    modifyObject_ok (t := .tableId) thrown
      (fun t => .ok { t with count := t.count - 1 }) ready hasTable recorded rfl
      (interchangeable_count tableObj _)
  have isCounted : tables.rows[tab]? =
      some { tableObj with count := tableObj.count - 1 } := by
    rw [entries, if_pos rfl]
  have stillRow : (db.rows .keyValue).rows[row]? = some obj := by
    rw [wrote.rows, Function.update_of_ne (by decide)]
    exact found
  apply ends_bind
  apply ends_of_ok counts
  apply ends_bind
  apply (ends_removeObject refuses { eos with db := db } wrote.ready
    stillRow).imp
  · intro _ middle erased
    have noRow : (middle.db.rows .keyValue).rows[row]? = none := by
      rw [erased.rows, Function.update_self, MultiIndex.erase_row, if_pos rfl]
    have stillTable : (middle.db.rows .tableId).rows[tab]? =
        some { tableObj with count := tableObj.count - 1 } := by
      rw [erased.rows, Function.update_of_ne (by decide), wrote.rows,
        Function.update_self]
      exact isCounted
    apply ends_bind
    apply ends_of_ok (EosDb.indices_apply erased.ready .tableId)
    change Ends (match (middle.db.rows .tableId).rows[tab]? with
      | none => throw Fault.undefined
      | some table =>
          if table.count = 0 then removeObject refuses .tableId tab
          else pure ⟨⟩) _ _ _
    rw [stillTable]
    simp only
    split
    · apply (ends_removeObject refuses middle erased.ready stillTable).imp
      · exact fun _ _ _ => trivial
      · rintro _ final rfl
        exact iff_of_false
          (fun intact => not_keepsRows_of_missing found noRow intact.2) recorded
    · exact ends_pure trivial
  · rintro _ final rfl
    apply iff_of_false _ recorded
    intro intact
    have miscounted := intact.1
    rw [show ({ eos with db := db } : EosDb).db.rows = _ from wrote.rows]
      at miscounted
    refine not_balanced_of_miscounted balanced hasTable isCounted ?_ miscounted
    simp

theorem ends_removeIterator {iterator : Int} :
    Ends (EosDb.removeIterator ndebug .keyValue iterator) eos
      (fun _ _ => True) (fun fault _ => fault.isException = false) := by
  apply ends_bind
  apply ends_of_ok (get_apply eos)
  apply ends_bind
  apply (EosDb.reads_ofExcept fun _ => EosDb.remove_fault).imp
  · exact fun _ _ _ => ends_of_ok rfl trivial
  · exact fun _ _ endsProcess => endsProcess

theorem intact_dbRemoveI64_iff {iterator : Int} (ready : eos.db.Ready)
    (balanced : Balanced eos.db.rows) :
    Ends (Limited.dbRemoveI64 refuses thrown ndebug iterator) eos
      (fun _ _ => True)
      (fun fault final => fault.isException = true → (Intact eos final ↔
        ¬ Spoils refuses thrown sha ndebug eos (.dbRemoveI64 iterator))) := by
  have isThrough : Limited.dbRemoveI64 refuses thrown ndebug iterator =
      EosDb.removeThrough ndebug .keyValue (removeI64Row refuses thrown)
        iterator := rfl
  rw [isThrough, EosDb.removeThrough_eq]
  have reads : EosDb.Reads (EosDb.locate ndebug .keyValue iterator) eos _ :=
    EosDb.reads_locate ready
  apply ends_bind
  cases located : EosDb.locate ndebug .keyValue iterator eos with
  | error fault left =>
      apply ends_of_error located
      intro isException
      rw [reads.of_error located] at isException
      cases isException
  | ok found left =>
      obtain ⟨rfl, isRow, isTable⟩ := reads.of_ok located
      have behind : EosDb.tableBehind ndebug .keyValue iterator left =
          some found.2 := by
        rw [EosDb.tableBehind, EStateM.run', EStateM.run, located]
        rfl
      apply ends_of_ok located
      apply ends_bind
      apply (ends_removeI64Row ready balanced isRow isTable).imp
      · intro _ middle _
        apply ends_removeIterator.imp
        · exact fun _ _ _ => trivial
        · intro fault _ endsProcess isException
          rw [endsProcess] at isException
          cases isException
      · intro _ final outcome _
        rw [outcome]
        simp [Spoils, behind]

/-! ### Updates -/

variable (refuses thrown) in
/-- An update of a row whose `assign` leaves it with the given fields. -/
theorem intact_assigning_iff {t : TableType} {id : (indexOf t).Id}
    {row : (indexOf t).Value}
    (written new : (indexOf t).Value → (indexOf t).Value) (ready : eos.db.Ready)
    (balanced : Balanced eos.db.rows)
    (found : (eos.db.rows t).rows[id]? = some row)
    (sameWritten : (indexOf t).Interchangeable row (written row))
    (sameNew : (indexOf t).Interchangeable row (new row))
    (staysBalanced : ∀ rows : MultiIndex (indexOf t),
      (∀ tested : (indexOf t).Id, rows.rows[tested]? =
        if id = tested then some (written row)
        else (eos.db.rows t).rows[tested]?) →
      Balanced (Function.update eos.db.rows t rows)) :
    Ends (modifyObject refuses thrown t id (assigning refuses t written new))
      eos (fun _ _ => True)
      (fun _ final => Intact eos final ↔
        ¬ (refuses t .modifier = true ∧
          ¬ NotRecorded refuses t (onModifySite row) eos ∧
          (thrown = .erasesElement ∨
            ¬ SamePayerAndValue t row (written row)))) := by
  by_cases recorded : NotRecorded refuses t (onModifySite row) eos
  · apply ends_of_error (modifyObject_notRecorded thrown _ ready found recorded)
    exact iff_of_true (intact_of_db balanced rfl)
      (fun spoils => spoils.2.1 recorded)
  cases memory : refuses t .modifier with
  | false =>
      have works : assigning refuses t written new row = .ok (new row) := by
        rw [assigning, memory]
        rfl
      obtain ⟨db, _, changed, _⟩ :=
        modifyObject_ok thrown _ ready found recorded works sameNew
      exact ends_of_ok changed trivial
  | true =>
      have throws : assigning refuses t written new row =
          .error (written row) := by
        rw [assigning, memory]
        rfl
      cases thrown with
      | erasesElement =>
          obtain ⟨db, failed, wrote⟩ :=
            modifyObject_erased _ ready found recorded throws
          apply ends_of_error failed
          apply iff_of_false
          · intro intact
            have missing : (db.rows t).rows[id]? = none := by
              rw [wrote.rows, Function.update_self, MultiIndex.erase_row,
                if_pos rfl]
            exact not_keepsRows_of_missing found missing intact.2
          · exact not_not_intro ⟨rfl, recorded, Or.inl rfl⟩
      | keepsElement =>
          obtain ⟨db, rows, failed, wrote, entries⟩ :=
            modifyObject_kept _ ready found recorded throws sameWritten
          apply ends_of_error failed
          have keeps := keepsRows_changed_iff found entries
          have stays := staysBalanced rows entries
          simp only [Intact, wrote.rows, keeps, stays, true_and, recorded,
            not_false_eq_true, reduceCtorEq, false_or, not_not]

theorem intact_dbUpdateI64_iff {iterator : Int} {payer : Name}
    {buffer : Bytes} (ready : eos.db.Ready)
    (balanced : Balanced eos.db.rows) :
    Ends (Limited.dbUpdateI64 refuses thrown ndebug iterator payer buffer) eos
      (fun _ _ => True)
      (fun fault final => fault.isException = true → (Intact eos final ↔
        ¬ Spoils refuses thrown sha ndebug eos
          (.dbUpdateI64 iterator payer buffer))) := by
  have reads : EosDb.Reads (EosDb.getObject ndebug .keyValue iterator) eos _ :=
    EosDb.reads_getObject ready .keyValue iterator
  apply ends_bind
  cases got : EosDb.getObject ndebug .keyValue iterator eos with
  | error fault left =>
      apply ends_of_error got
      intro isException
      rw [reads.of_error got] at isException
      cases isException
  | ok obj left =>
      obtain ⟨rfl, found⟩ := reads.of_ok got
      have behind : EosDb.rowBehind ndebug .keyValue iterator left =
          some obj := by
        rw [EosDb.rowBehind, EStateM.run', EStateM.run, got]
      apply ends_of_ok got
      have updates := intact_assigning_iff refuses thrown (t := .keyValue) id
        (fun o => { o with value := buffer, payer := payer }) ready balanced
        found (IndexType.Interchangeable.refl obj)
        (interchangeable_keyValue obj payer buffer)
        (fun rows entries =>
          balanced.rowChanged (r := .keyValue) found rfl entries)
      apply updates.imp
      · exact fun _ _ _ => trivial
      · intro _ final outcome _
        rw [outcome]
        simp [Spoils, behind, samePayerAndValue_refl]

theorem intact_dbUpdateByScope_iff {tab : Int64} {payer : Name}
    {buffer : Bytes} (ready : eos.db.Ready)
    (balanced : Balanced eos.db.rows) :
    Ends (Limited.dbUpdateByScope refuses thrown tab payer buffer) eos
      (fun _ _ => True)
      (fun fault final => fault.isException = true → (Intact eos final ↔
        ¬ Spoils refuses thrown sha ndebug eos
          (.dbUpdateByScope tab payer buffer))) := by
  cases found : (eos.db.rows .tableId).rows[tab]? with
  | none =>
      apply ends_of_error (EosDb.onDatabase_error (ready.onRegistered_error
        (modify_missing _ thrown _ found)))
      intro isException
      cases isException
  | some tableObj =>
      have updates := intact_assigning_iff refuses thrown (t := .tableId) id
        (fun t => { t with value := buffer, payer := payer }) ready balanced
        found (IndexType.Interchangeable.refl tableObj)
        (interchangeable_scope tableObj payer buffer)
        (fun rows entries => balanced.tableChanged found rfl entries)
      apply updates.imp
      · exact fun _ _ _ => trivial
      · intro _ final outcome _
        have isTable : (eos.db.rows .tableId).find tab = some tableObj := found
        rw [outcome]
        simp [Spoils, isTable, samePayerAndValue_refl]

theorem intact_dbUpdateByKey_iff {type : KeyType} {scope : Sha256}
    {key : Key type} {payer : Sha256} {buffer : Bytes}
    (ready : eos.db.Ready) (balanced : Balanced eos.db.rows) :
    Ends (Limited.dbUpdateByKey refuses thrown sha ndebug scope key payer
        buffer) eos
      (fun _ _ => True)
      (fun fault final => fault.isException = true → (Intact eos final ↔
        ¬ Spoils refuses thrown sha ndebug eos
          (.dbUpdateByKey type scope key payer buffer))) := by
  apply ends_bind
  cases hashed : EosDb.hashKey sha scope key with
  | error fault =>
      apply ends_of_error rfl
      intro _
      apply iff_of_true (intact_of_db balanced rfl)
      rintro ⟨tableKey, _, isHash, _⟩
      rw [hashed] at isHash
      cases isHash
  | ok tableKey =>
      apply ends_of_ok (pure_apply tableKey eos)
      apply ends_bind
      apply ends_of_ok (EosDb.indices_apply ready .tableKey)
      cases found : (eos.db.rows .tableKey).find tableKey with
      | none =>
          apply ends_of_error rfl
          intro isException
          rw [Fault.failedAssert_isException] at isException
          cases isException
      | some record =>
          have sameId : record.id = tableKey :=
            (eos.db.rows .tableKey).keyed found
          simp only
          rw [sameId]
          have updates := intact_assigning_iff refuses thrown (t := .tableKey)
            (fun t => { t with payer := payer })
            (fun t => { t with payer := payer, value := buffer }) ready
            balanced found
            (IndexType.KeepsKeys.interchangeable ⟨rfl, by simp⟩)
            (IndexType.KeepsKeys.interchangeable ⟨rfl, by simp⟩)
            (fun rows _ => balanced.keysChanged rows)
          apply updates.imp
          · exact fun _ _ _ => trivial
          · intro _ final outcome _
            rw [outcome]
            simp [Spoils, hashed, found, SamePayerAndValue]

/-- Every table counts its rows and every row keeps its payer and value when a
call throws, if and only if the call did not get to a change that it does not
finish. -/
theorem thrown_call_intact_iff (refuses : TableType → IndexSite → Bool)
    (thrown : ThrownModifier) (sha : Bytes → Sha256) (ndebug : Bool)
    (eos final : EosDb) (call : LimitedCall) (fault : Fault)
    (ready : eos.db.Ready) (balanced : Balanced eos.db.rows)
    (isException : fault.isException = true)
    (throws : call.program refuses thrown sha ndebug eos =
      .error fault final) :
    Intact eos final ↔ ¬ call.Spoils refuses thrown sha ndebug eos := by
  have ends : Ends (call.program refuses thrown sha ndebug) eos
      (fun _ _ => True)
      (fun fault final => fault.isException = true →
        (Intact eos final ↔ ¬ call.Spoils refuses thrown sha ndebug eos)) := by
    cases call with
    | dbStoreI64 code scope table payer id buffer memory =>
        exact ends_map ((intact_dbStoreI64_iff ready balanced).imp
          (fun _ _ holds => holds) (fun _ _ outcome _ => outcome))
    | dbRemoveI64 iterator =>
        exact ends_map (intact_dbRemoveI64_iff ready balanced)
    | dbUpdateI64 iterator payer buffer =>
        exact ends_map (intact_dbUpdateI64_iff ready balanced)
    | dbUpdateByScope tab payer buffer =>
        exact ends_map (intact_dbUpdateByScope_iff ready balanced)
    | dbUpdateByKey type scope key payer buffer =>
        exact ends_map (intact_dbUpdateByKey_iff ready balanced)
  exact ends.of_error throws isException

/-- Without tables and rows there is nothing to count. -/
theorem balanced_of_empty {contents : Contents}
    (noTables : (contents .tableId).rows.toList = [])
    (noRows : ∀ r ∈ RowTable.all, (contents r.type).rows.toList = []) :
    Balanced contents := by
  constructor
  · intro r id row found
    have member := (Maps.mem_map_toList _ _ _).mpr found
    rw [noRows r (mem_all r)] at member
    cases member
  · intro tab tableObj found
    have member := (Maps.mem_map_toList _ _ _).mpr found
    rw [noTables] at member
    cases member

/-- The test of the fault with which a program fails and of what it leaves. -/
def failsWith {α : Type} (result : EStateM.Result Fault EosDb α)
    (test : Fault → EosDb → Bool) : Bool :=
  match result with
  | .ok _ _ => false
  | .error fault final => test fault final

theorem fails_of_failsWith {α : Type} {result : EStateM.Result Fault EosDb α}
    {test : Fault → EosDb → Bool} (fails : failsWith result test = true) :
    ∃ fault final, result = .error fault final ∧ test fault final = true := by
  cases result with
  | ok value final => cases fails
  | error fault final => exact ⟨fault, final, rfl, fails⟩

/-- An open session, and no memory for the row: the table that was created
stays, without rows. -/
theorem thrown_call_intact_iff_noRow :
    ∃ eos final : EosDb, EosDb.Reachable (fun _ => 0) false eos.db ∧
      (LimitedCall.dbStoreI64 ⟨1⟩ 2 ⟨3⟩ ⟨4⟩ 7 [10]
        ⟨⟨16, 5⟩, ⟨32, 0⟩⟩).program
        (fun t site => decide (t = .keyValue ∧ site = .element))
        .erasesElement (fun _ => 0) false eos = .error .badAlloc final ∧
      (final.db.rows .tableId).rows[(5 : Int64)]? ≠ none ∧
      Intact eos final := by
  obtain ⟨eos, reachable, test⟩ := EosDb.reachable_of_any (fun _ => 0) false
    [.startUndoSession]
    (fun eos =>
      decide ((eos.db.rows .tableId).rows.toList = [] ∧
        ∀ r ∈ RowTable.all, (eos.db.rows r.type).rows.toList = []) &&
      failsWith ((LimitedCall.dbStoreI64 ⟨1⟩ 2 ⟨3⟩ ⟨4⟩ 7 [10]
        ⟨⟨16, 5⟩, ⟨32, 0⟩⟩).program
        (fun t site => decide (t = .keyValue ∧ site = .element))
        .erasesElement (fun _ => 0) false eos)
        fun fault final => decide (fault = .badAlloc ∧
          (final.db.rows .tableId).rows[(5 : Int64)]? ≠ none))
    (by decide +kernel)
  rw [Bool.and_eq_true, decide_eq_true_iff] at test
  obtain ⟨⟨noTables, noRows⟩, fails⟩ := test
  obtain ⟨fault, final, throws, fails⟩ := fails_of_failsWith fails
  obtain ⟨isBadAlloc, hasTable⟩ := of_decide_eq_true fails
  rw [isBadAlloc] at throws
  refine ⟨eos, final, reachable, throws, hasTable,
    (thrown_call_intact_iff _ _ _ _ _ _ _ _ reachable.allWellMade.ready
      (balanced_of_empty noTables noRows) rfl throws).mpr ?_⟩
  intro spoils
  cases spoils.1

/-- An open session, and no memory to record the new row: the row is there and
its table does not count it. -/
theorem thrown_call_uncounted_row :
    ∃ eos final : EosDb, EosDb.Reachable (fun _ => 0) false eos.db ∧
      Balanced eos.db.rows ∧
      (LimitedCall.dbStoreI64 ⟨1⟩ 2 ⟨3⟩ ⟨4⟩ 7 [10]
        ⟨⟨16, 5⟩, ⟨32, 0⟩⟩).program
        (fun t site => decide (t = .keyValue ∧ site = .newIds))
        .erasesElement (fun _ => 0) false eos = .error .badAlloc final ∧
      ∃ (tableObj : TableIdObject) (row : KeyValueObject),
        (final.db.rows .tableId).rows[(5 : Int64)]? = some tableObj ∧
        tableObj.count = 0 ∧
        (final.db.rows .keyValue).rows[(7 : Int64)]? = some row ∧
        row.tId = 5 ∧ ¬ Intact eos final := by
  obtain ⟨eos, reachable, test⟩ := EosDb.reachable_of_any (fun _ => 0) false
    [.startUndoSession]
    (fun eos =>
      decide ((eos.db.rows .tableId).rows.toList = [] ∧
        ∀ r ∈ RowTable.all, (eos.db.rows r.type).rows.toList = []) &&
      failsWith ((LimitedCall.dbStoreI64 ⟨1⟩ 2 ⟨3⟩ ⟨4⟩ 7 [10]
        ⟨⟨16, 5⟩, ⟨32, 0⟩⟩).program
        (fun t site => decide (t = .keyValue ∧ site = .newIds))
        .erasesElement (fun _ => 0) false eos)
        fun fault final => decide (fault = .badAlloc ∧
          (final.db.rows .tableId).rows[(5 : Int64)]?.map
            TableIdObject.count = some 0 ∧
          (final.db.rows .keyValue).rows[(7 : Int64)]?.map
            KeyValueObject.tId = some 5))
    (by decide +kernel)
  rw [Bool.and_eq_true, decide_eq_true_iff] at test
  obtain ⟨⟨noTables, noRows⟩, fails⟩ := test
  obtain ⟨fault, final, throws, fails⟩ := fails_of_failsWith fails
  obtain ⟨isBadAlloc, isTable, isRow⟩ := of_decide_eq_true fails
  obtain ⟨tableObj, hasTable, noCount⟩ := Option.map_eq_some_iff.mp isTable
  obtain ⟨row, hasRow, ofTable⟩ := Option.map_eq_some_iff.mp isRow
  rw [isBadAlloc] at throws
  refine ⟨eos, final, reachable, balanced_of_empty noTables noRows, throws,
    tableObj, row, hasTable, noCount, hasRow, ofTable, ?_⟩
  intro intact
  have counted := intact.1.counted _ _ hasTable
  have positive := rowsOf_pos (r := .keyValue) hasRow
  change 0 < rowsOf final.db.rows row.tId at positive
  rw [ofTable, ← counted, noCount] at positive
  cases positive

end LimitedCall

end StateDatabase
