import Mathlib
import StateDatabase.IteratorCalls

/-!
# Counts over whole runs

A program stores, changes and removes rows through one `eos_db`.  As long as no
id of a table is used twice, every row belongs to a table and every table
counts its rows, also after calls that violated uniqueness.
-/

namespace StateDatabase

open Programs GenericIndex EosDb

/-- An `eos_db` with the iterators that it returned and that were not removed
since. -/
abbrev EosWithIterators := Traced (RowTable → List Int)

namespace EosCall

/-- The iterators of the caller after a call has returned. -/
def handOver (iterators : RowTable → List Int) (call : EosCall)
    (reply : Reply) : RowTable → List Int :=
  match call, reply with
  | .dbStoreI64 _ _ _ _ _ _ _, .iterator value =>
      Function.update iterators .keyValue (value :: iterators .keyValue)
  | .idxStore kind _ _ _ _ _ _ _, .iterator value =>
      Function.update iterators (.index kind)
        (value :: iterators (.index kind))
  | .dbRemoveI64 value, _ =>
      Function.update iterators .keyValue
        ((iterators .keyValue).filter (· ≠ value))
  | .idxRemove kind value, _ =>
      Function.update iterators (.index kind)
        ((iterators (.index kind)).filter (· ≠ value))
  | _, _ => iterators

end EosCall

namespace EosWithIterators

variable (sha : Bytes → Sha256) (ndebug : Bool)

/-- A new `eos_db` on empty tables. -/
def start (place : (t : TableType) → (indexOf t).Id → Address) :
    EosWithIterators :=
  { eos := ofDatabase emptyTables place
    tableIds := []
    history := fun _ => [] }

def step (traced : EosWithIterators) (call : EosCall) :
    Option EosWithIterators :=
  Traced.step EosCall.handOver sha ndebug traced call

/-- The allocator returns vacant memory, a new table does not get the id of a
table that is gone, and the table has room for the row. -/
def CanStore (traced : EosWithIterators) (r : RowTable) (name : TableName)
    (memory : Memory) : Prop :=
  (traced.eos.tableNamed name = none →
    traced.eos.TableBlock traced.tableIds memory.table) ∧
  traced.eos.Vacant r.type memory.row.address ∧
  ∀ tableObj ∈ traced.eos.tableNamed name,
    rowsOf traced.eos.db.rows tableObj.id + 1 < 2 ^ 32

instance (traced : EosWithIterators) (r : RowTable) (name : TableName)
    (memory : Memory) : Decidable (traced.CanStore r name memory) := by
  unfold CanStore
  infer_instance

/-- The calls that change tables and rows, through tables and iterators that
were returned and not removed. -/
def Permitted (traced : EosWithIterators) : EosCall → Prop
  | .findOrCreateTable code scope table _ block =>
      traced.eos.tableNamed (code, scope, table) = none →
        traced.eos.TableBlock traced.tableIds block
  | .dbStoreByScope code scope table _ _ block =>
      traced.eos.tableNamed (code, scope, table) = none →
        traced.eos.TableBlock traced.tableIds block
  | .dbUpdateByScope tab _ _ =>
      (traced.eos.db.rows .tableId).rows[tab]? ≠ none
  | .dbStoreI64 code scope table _ _ _ memory =>
      traced.CanStore .keyValue (code, scope, table) memory
  | .dbUpdateI64 iterator _ _ => iterator ∈ traced.history .keyValue
  | .dbRemoveI64 iterator => iterator ∈ traced.history .keyValue
  | .idxStore kind code scope table _ _ _ memory =>
      traced.CanStore (.index kind) (code, scope, table) memory
  | .idxUpdate kind iterator _ _ => iterator ∈ traced.history (.index kind)
  | .idxRemove kind iterator => iterator ∈ traced.history (.index kind)
  | _ => False

instance (traced : EosWithIterators) (call : EosCall) :
    Decidable (traced.Permitted call) := by
  apply @EosCall.casesOn (fun call => Decidable (traced.Permitted call)) call <;>
    intros <;> unfold Permitted <;> infer_instance

/-- Every cache has handed out fewer than 2^31 iterators. -/
def FewIterators (traced : EosWithIterators) : Prop :=
  ∀ r, (traced.eos.caches r).iteratorToObject.length < 2 ^ 31

/-- The counts are right and the caches lead where they should. -/
def Sound (traced : EosWithIterators) : Prop :=
  traced.eos.Consistent traced.tableIds

/-- Every iterator of the caller leads to a row. -/
def Held (traced : EosWithIterators) : Prop :=
  ∀ (r : RowTable), ∀ value ∈ traced.history r,
    ∃ (position : Nat) (address : Address), value = position ∧
      (traced.eos.caches r).iteratorToObject[position]? = some (some address)

variable {sha ndebug} {traced : EosWithIterators}

/-! ## One call -/

/-- What a call leaves behind. -/
def Next (traced next : EosWithIterators) : Prop :=
  next.Sound ∧ (traced.FewIterators → traced.Held → next.Held)

/-- A call fails with an exception, or it was made through an iterator that
leads nowhere. -/
def Fails (traced : EosWithIterators) (fault : Fault) (eos : EosDb) : Prop :=
  fault.isException = true ∧ traced.Next (traced.moved eos traced.history) ∨
    fault.isException = false ∧ ¬ traced.Held

section Calls

variable {r : RowTable} {final : EosDb} {name : TableName} {tab : Int64}
  {iterator : Int}

theorem next_of_caches (consistent : final.Consistent
      (final.liveTables ++ traced.tableIds))
    (caches : final.caches = traced.eos.caches) :
    traced.Next (traced.moved final traced.history) := by
  refine ⟨consistent, fun _ held r value member => ?_⟩
  simp only [Traced.moved, caches]
  exact held r value member

theorem next_of_unchanged (sound : traced.Sound) :
    traced.Next (traced.moved traced.eos traced.history) :=
  next_of_caches (sound.mono (List.subset_append_right _ _)) rfl

theorem next_of_stored {row : (indexOf r.type).Value} {address : Address}
    (stored : traced.eos.Stored traced.tableIds r name row address iterator
      final) :
    traced.Next (traced.moved final
      (Function.update traced.history r
        (iterator :: traced.history r))) := by
  refine ⟨stored.consistent, fun few held other value member => ?_⟩
  obtain ⟨tableAddress, caches⟩ := stored.caches
  simp only [Traced.moved, caches] at member ⊢
  by_cases same : other = r
  · subst same
    rw [Function.update_self] at member ⊢
    simp only [IteratorCache.pushed_entry,
      IteratorCache.cacheTable_iteratorToObject]
    rcases List.mem_cons.mp member with isNew | isOld
    · refine ⟨_, address, ?_, Or.inr ⟨rfl, rfl⟩⟩
      rw [isNew, stored.iterator]
      have bound := few other
      exact toInt32_eq (by omega) (by exact_mod_cast bound)
    · obtain ⟨position, heldAddress, isPosition, entry⟩ :=
        held other value isOld
      exact ⟨position, heldAddress, isPosition, Or.inl entry⟩
  · rw [Function.update_of_ne same] at member ⊢
    exact held other value member

theorem next_of_removed {position : Nat} {address : Address}
    {id : (indexOf r.type).Id}
    (removed : traced.eos.Removed traced.tableIds r position address id final) :
    traced.Next (traced.moved final
      (Function.update traced.history r
        ((traced.history r).filter (· ≠ (position : Int))))) := by
  refine ⟨removed.consistent.mono (List.subset_append_right _ _),
    fun _ held other value member => ?_⟩
  simp only [Traced.moved, removed.caches] at member ⊢
  by_cases same : other = r
  · subst same
    rw [Function.update_self] at member ⊢
    obtain ⟨isOld, different⟩ := List.mem_filter.mp member
    obtain ⟨heldAt, heldAddress, isPosition, entry⟩ := held other value isOld
    refine ⟨heldAt, heldAddress, isPosition, ?_⟩
    rw [IteratorCache.cleared_entry]
    refine ⟨?_, entry⟩
    rintro rfl
    simp [isPosition] at different
  · rw [Function.update_of_ne same] at member ⊢
    exact held other value member

/-- Calls that locate a table. -/
theorem ends_located {program : EosDbM Int64} (sound : traced.Sound)
    (ends : Ends program traced.eos
      (fun tab final => traced.eos.Located traced.tableIds name tab final)
      (fun fault final =>
        fault = .logicError uniquenessMessage ∧ final = traced.eos)) :
    Ends (Reply.table <$> program) traced.eos
      (fun _ final => traced.Next (traced.moved final traced.history))
      (fun fault final => traced.Fails fault final) := by
  refine ends_map (ends.imp ?_ ?_)
  · intro _ final located
    exact next_of_caches located.consistent located.caches
  · rintro fault final ⟨rfl, rfl⟩
    exact Or.inl ⟨rfl, next_of_unchanged sound⟩

/-- Calls that store a row. -/
theorem ends_stored {code : Name} {scope : Sha256} {table payer : Name}
    {newRow : Int64 → (indexOf r.type).Value} {memory : Memory}
    (sound : traced.Sound)
    (canStore : traced.CanStore r (code, scope, table) memory)
    (ofTable : ∀ tab, r.tId (newRow tab) = tab) :
    Ends (Reply.iterator <$> storeRow r code scope table payer newRow memory)
      traced.eos
      (fun reply final => ∃ value, reply = .iterator value ∧
        traced.Next (traced.moved final
          (Function.update traced.history r (value :: traced.history r))))
      (fun fault final => traced.Fails fault final) := by
  have ends := Consistent.ends_storeRow sound payer canStore.1 canStore.2.1
    canStore.2.2 ofTable
  refine ends_map (ends.imp ?_ ?_)
  · rintro value final ⟨tab, stored⟩
    exact ⟨value, rfl, next_of_stored stored⟩
  · rintro fault final ⟨rfl, rfl | ⟨tab, located⟩⟩
    · exact Or.inl ⟨rfl, next_of_unchanged sound⟩
    · exact Or.inl ⟨rfl, next_of_caches located.consistent located.caches⟩

/-- Calls through an iterator. -/
theorem ends_through {program : EosDbM PUnit} {post : EosWithIterators → Prop}
    {iterators : RowTable → List Int} (sound : traced.Sound)
    (member : iterator ∈ traced.history r)
    (fails : ∀ fault, getObject ndebug r iterator traced.eos =
      .error fault traced.eos → program traced.eos = .error fault traced.eos)
    (works : ∀ (position : Nat) address id row tableObj,
      iterator = position →
      traced.eos.Holds r position address id row tableObj →
        ∃ final, program traced.eos = .ok ⟨⟩ final ∧
          post (traced.moved final iterators)) :
    Ends ((fun _ => Reply.done) <$> program) traced.eos
      (fun _ final => post (traced.moved final iterators))
      (fun fault final => traced.Fails fault final) := by
  apply ends_map
  rcases held_or_fault (traced.eos.caches r) ndebug iterator with
    ⟨position, address, isPosition, held⟩ | ⟨fault, failed, endsProcess⟩
  · obtain ⟨id, row, tableObj, holds⟩ := Consistent.holds sound held
    obtain ⟨final, ran, next⟩ :=
      works position address id row tableObj isPosition holds
    exact ends_of_ok ran next
  · refine ends_of_error (fails fault (getObject_error failed))
      (Or.inr ⟨endsProcess, fun allHeld => ?_⟩)
    obtain ⟨position, address, rfl, held⟩ := allHeld r iterator member
    rw [IteratorCache.get_of_live held] at failed
    cases failed

/-- Every permitted call. -/
theorem ends_call {call : EosCall} (sound : traced.Sound)
    (permitted : traced.Permitted call) :
    Ends (call.program sha ndebug) traced.eos
      (fun reply final => traced.Next
        (traced.moved final (EosCall.handOver traced.history call reply)))
      (fun fault final => traced.Fails fault final) := by
  cases call with
  | findOrCreateTable code scope table payer block =>
      exact ends_located sound
        (Consistent.ends_findOrCreateTable sound _ permitted)
  | dbStoreByScope code scope table payer buffer block =>
      exact ends_located sound
        (Consistent.ends_dbStoreByScope sound permitted)
  | dbUpdateByScope tab payer buffer =>
      obtain ⟨tableObj, found⟩ := Option.ne_none_iff_exists'.mp permitted
      obtain ⟨final, changed, consistent, caches⟩ :=
        Consistent.dbUpdateByScope_ok sound
          found
      exact ends_map (ends_of_ok changed (next_of_caches
        (consistent.mono (List.subset_append_right _ _)) caches))
  | dbStoreI64 code scope table payer id buffer memory =>
      refine (ends_stored (r := .keyValue) sound permitted fun _ => rfl).imp
        ?_ fun _ _ failed => failed
      rintro reply final ⟨value, rfl, next⟩
      exact next
  | idxStore kind code scope table payer id value memory =>
      refine (ends_stored (r := .index kind) sound permitted fun _ => rfl).imp
        ?_ fun _ _ failed => failed
      rintro reply final ⟨value, rfl, next⟩
      exact next
  | dbUpdateI64 iterator payer buffer =>
      refine ends_through (r := .keyValue) sound permitted
        (fun fault failed => bind_apply_of_error _ failed) ?_
      rintro position address id row tableObj rfl holds
      obtain ⟨final, ran, rewritten⟩ := holds.dbUpdateI64 sound
      exact ⟨final, ran, next_of_caches (rewritten.consistent.mono
        (List.subset_append_right _ _)) rewritten.caches⟩
  | dbRemoveI64 iterator =>
      refine ends_through (r := .keyValue) sound permitted
        (fun fault failed => bind_apply_of_error _ failed) ?_
      rintro position address id row tableObj rfl holds
      obtain ⟨final, ran, removed⟩ := holds.dbRemoveI64 sound
      exact ⟨final, ran, next_of_removed removed⟩
  | idxUpdate kind iterator payer secondary =>
      refine ends_through (r := .index kind) sound permitted
        (fun fault failed => bind_apply_of_error _ failed) ?_
      rintro position address id row tableObj rfl holds
      obtain ⟨final, ran, rewritten⟩ := holds.idxUpdate sound
      exact ⟨final, ran, next_of_caches (rewritten.consistent.mono
        (List.subset_append_right _ _)) rewritten.caches⟩
  | idxRemove kind iterator =>
      refine ends_through (r := .index kind) sound permitted
        (fun fault failed => bind_apply_of_error _ failed) ?_
      rintro position address id row tableObj rfl holds
      obtain ⟨final, ran, removed⟩ := holds.idxRemove sound
      exact ⟨final, ran, next_of_removed removed⟩
  | _ => exact False.elim permitted

theorem sound_step {call : EosCall} {next : EosWithIterators}
    (sound : traced.Sound)
    (permitted : traced.Permitted call)
    (stepped : traced.step sha ndebug call = some next) : next.Sound := by
  refine Traced.step_preserves ((ends_call sound permitted).imp
    (fun _ _ next => next.1) ?_) stepped
  rintro fault final (⟨_, next⟩ | ⟨endsProcess, _⟩) isException
  · exact next.1
  · rw [endsProcess] at isException
    cases isException

theorem held_step {call : EosCall} (sound : traced.Sound)
    (permitted : traced.Permitted call) (few : traced.FewIterators)
    (held : traced.Held) :
    ∃ next, traced.step sha ndebug call = some next ∧
      next.Sound ∧ next.Held := by
  refine Traced.step_survives
    ((ends_call sound permitted).imp
      (fun _ _ next => ⟨next.1, next.2 few held⟩) ?_)
  rintro fault final (⟨isException, next⟩ | ⟨_, notHeld⟩)
  · exact ⟨isException, next.1, next.2 few held⟩
  · exact absurd held notHeld

end Calls

/-! ## Runs -/

theorem start_sound (place : (t : TableType) → (indexOf t).Id → Address) :
    (start place).Sound := by
  have noRow : ∀ (t : TableType) (id : (indexOf t).Id),
      (emptyTables.rows t).rows[id]? = none :=
    fun t id => MultiIndex.empty_row id
  exact consistent_ofDatabase emptyTables_ready emptyTables_balanced
    (fun t left _ isLeft => absurd (noRow t left) isLeft)
    fun tab stored => absurd (noRow .tableId tab) stored

theorem dbRemoveI64_consistent {eos next : EosDb} {used : List Int64}
    {iterator : Int} (consistent : eos.Consistent used)
    (removed : dbRemoveI64 ndebug iterator eos = .ok ⟨⟩ next) :
    next.Consistent used := by
  rcases held_or_fault (eos.caches .keyValue) ndebug iterator with
    ⟨position, address, rfl, held⟩ | ⟨fault, failed, _⟩
  · obtain ⟨id, row, tableObj, holds⟩ := consistent.holds held
    obtain ⟨final, ran, isRemoved⟩ := holds.dbRemoveI64 consistent
    rw [ran] at removed
    cases removed
    exact isRemoved.consistent
  · rw [dbRemoveI64, bind_apply_of_error _ (getObject_error failed)] at removed
    cases removed

/-- Every row belongs to exactly one table that is stored, and the count of a
table is the number of its rows in all row tables.  A row that is stored keeps
the count of its table from zero, and `db_remove_i64` removes no table with
rows.  With fewer than 2^31 iterators no permitted call ends the process. -/
theorem counts_exact (sha : Bytes → Sha256) (ndebug : Bool)
    (place : (t : TableType) → (indexOf t).Id → Address)
    (calls : List EosCall)
    (permitted : Runs.AllowedFrom (step sha ndebug) Permitted (start place)
      calls) :
    (∀ final, Runs.run (step sha ndebug) (start place) calls = some final →
      (∀ (r : RowTable) (id : (indexOf r.type).Id)
        (row : (indexOf r.type).Value),
        (final.eos.db.rows r.type).rows[id]? = some row →
          ∃! tableObj : TableIdObject,
            (∃ tab : Int64,
              (final.eos.db.rows .tableId).rows[tab]? = some tableObj) ∧
            tableObj.id = r.tId row ∧ 0 < tableObj.count.toNat) ∧
      (∀ (tab : Int64) (tableObj : TableIdObject),
        (final.eos.db.rows .tableId).rows[tab]? = some tableObj →
          tableObj.count.toNat = rowsOf final.eos.db.rows tableObj.id) ∧
      ∀ iterator next,
        dbRemoveI64 ndebug iterator final.eos = .ok ⟨⟩ next →
          ∀ tab : Int64, (next.db.rows .tableId).rows[tab]? = none →
            rowsOf next.db.rows tab = 0) ∧
    (Runs.AllowedFrom (step sha ndebug) (fun traced _ => traced.FewIterators)
      (start place) calls →
        ∃ final, Runs.run (step sha ndebug) (start place) calls =
          some final) := by
  constructor
  · intro final finished
    have sound : final.Sound := Runs.run_preserves Sound
      (fun _ _ _ sound permitted => sound_step sound permitted)
      (start_sound place) permitted finished
    refine ⟨?_, ?_, ?_⟩
    · intro r id row found
      obtain ⟨tableObj, hasTable⟩ := sound.balanced.owned r id row found
      have counted := sound.balanced.counted _ tableObj hasTable
      have positive := rowsOf_pos found
      refine ⟨tableObj, ⟨⟨_, hasTable⟩,
        (final.eos.db.rows .tableId).keyed hasTable, by omega⟩, ?_⟩
      rintro other ⟨⟨tab, isOther⟩, isId, _⟩
      have isTab : other.id = tab :=
        (final.eos.db.rows .tableId).keyed isOther
      rw [← isTab, isId, hasTable] at isOther
      exact (Option.some.inj isOther).symm
    · intro tab tableObj found
      have isTab : tableObj.id = tab :=
        (final.eos.db.rows .tableId).keyed found
      rw [isTab]
      exact sound.balanced.counted tab tableObj found
    · intro iterator next removed tab gone
      exact (dbRemoveI64_consistent sound removed).balanced.rowsOf_of_gone gone
  · intro few
    obtain ⟨final, finished, _⟩ := Runs.run_invariant
      (fun _ _ holds allowed => held_step holds.1 allowed.1 allowed.2 holds.2)
      ⟨start_sound place, fun _ _ member => absurd member List.not_mem_nil⟩
      (permitted.and few)
    exact ⟨final, finished⟩

/-- A row and an index row in one table, a row that is refused, and the
removal of the first row, after which the table has the index row only. -/
def sharedTable : List EosCall :=
  [.dbStoreI64 ⟨1⟩ 2 ⟨3⟩ ⟨4⟩ 7 [10] ⟨⟨16, 5⟩, ⟨32, 0⟩⟩,
    .idxStore .idx64 ⟨1⟩ 2 ⟨3⟩ ⟨4⟩ 7 100 ⟨⟨48, 5⟩, ⟨64, 9⟩⟩,
    .dbStoreI64 ⟨1⟩ 2 ⟨3⟩ ⟨4⟩ 7 [11] ⟨⟨48, 5⟩, ⟨80, 0⟩⟩,
    .dbRemoveI64 0, .idxUpdate .idx64 0 ⟨4⟩ 101]

theorem counts_exact_sharedTable :
    ∃ final, Runs.run (step (fun _ => 0) false) (start fun _ _ => 0)
        sharedTable = some final ∧
      final.eos.liveTables = [5] ∧
      ∀ (tab : Int64) (tableObj : TableIdObject),
        (final.eos.db.rows .tableId).rows[tab]? = some tableObj →
          tableObj.count.toNat = rowsOf final.eos.db.rows tableObj.id := by
  have finished : (Runs.run (step (fun _ => 0) false) (start fun _ _ => 0)
      sharedTable).map (fun final => final.eos.liveTables) = some [5] := by
    decide +kernel
  obtain ⟨final, ran, isLive⟩ := Option.map_eq_some_iff.mp finished
  exact ⟨final, ran, isLive, ((counts_exact (fun _ => 0) false (fun _ _ => 0)
    sharedTable (by decide +kernel)).1 final ran).2.1⟩

end EosWithIterators

end StateDatabase
