import Mathlib
import StateDatabase.Creation
import StateDatabase.Traversal

/-!
# Stores that are rejected

A store finds or creates the table, creates the row and counts it.  The
uniqueness error can come from the table or from the row.  When it comes from
the row, a table that was created for it stays behind.
-/

namespace StateDatabase

open Programs GenericIndex

namespace EosDb

variable {sha : Bytes → Sha256} {ndebug : Bool} {eos final : EosDb}
  {r : RowTable} {code : Name} {scope : Sha256} {table payer : Name}
  {newRow : Int64 → (indexOf r.type).Value} {memory : Memory}

/-- The database with its undo stacks is as before, and so is what the lookups
on the table return. -/
structure LeavesNoTrace (name : TableName) (eos final : EosDb) : Prop where
  db : final.db = eos.db
  find : ∀ id : UInt64,
    EStateM.run' (dbFindI64 name.1 name.2.1 name.2.2 id) final =
      EStateM.run' (dbFindI64 name.1 name.2.1 name.2.2 id) eos
  tableEnd :
    EStateM.run' (dbEndI64 name.1 name.2.1 name.2.2) final =
      EStateM.run' (dbEndI64 name.1 name.2.1 name.2.2) eos

theorem leavesNoTrace_refl (name : TableName) (eos : EosDb) :
    LeavesNoTrace name eos eos where
  db := rfl
  find _ := rfl
  tableEnd := rfl

theorem not_canLocate_iff {name : TableName} {block : Block} :
    ¬ eos.CanLocate name block ↔
      eos.tableNamed name = none ∧
        (eos.db.rows .tableId).rows[block.unset]? ≠ none := by
  unfold CanLocate
  exact Classical.not_imp

/-- The table itself is refused. -/
theorem storeRow_of_not_canLocate (ready : eos.db.Ready)
    (cannot : ¬ eos.CanLocate (code, scope, table) memory.table) :
    storeRow r code scope table payer newRow memory eos =
      .error (.logicError uniquenessMessage) eos := by
  obtain ⟨absent, used⟩ := not_canLocate_iff.mp cannot
  have refused := (MultiIndex.emplace_eq_none_iff _ _).mpr
    (mt (admits_newTable_iff payer [] absent).mp used)
  exact storeRow_error (findOrCreateTable_refused ready absent refused)

/-- The row is refused in a table that is there or was created for it. -/
theorem storeRow_of_canLocate (ready : eos.db.Ready)
    (canLocate : eos.CanLocate (code, scope, table) memory.table)
    (rejected : storeRow r code scope table payer newRow memory eos =
      .error (.logicError uniquenessMessage) final) :
    ∃ tab, findOrCreateTable code scope table payer memory.table eos =
      .ok tab final := by
  by_cases admits : (eos.db.rows r.type).Admits
      (newRow (eos.tableFor (code, scope, table) memory.table))
  · have succeeds : Succeeds
        (storeRow r code scope table payer newRow memory) eos :=
      (succeeds_storeRow_iff ready).mpr ⟨canLocate, admits⟩
    obtain ⟨_, _, stored⟩ := succeeds
    rw [stored] at rejected
    cases rejected
  · obtain ⟨located, _, isLocated, locatedReady, sameRows, _⟩ :=
      findOrCreateTable_located (r := r) ready canLocate
    have refused : (located.db.rows r.type).emplace
        (newRow (eos.tableFor (code, scope, table) memory.table)) = none := by
      rw [sameRows]
      exact (MultiIndex.emplace_eq_none_iff _ _).mpr admits
    rw [storeRow_refused isLocated locatedReady refused] at rejected
    cases rejected
    exact ⟨_, isLocated⟩

/-- A rejected store leaves no trace if and only if it did not get as far as a
new table. -/
theorem storeRow_leavesNoTrace_iff (ready : eos.db.Ready)
    (rejected : storeRow r code scope table payer newRow memory eos =
      .error (.logicError uniquenessMessage) final) :
    LeavesNoTrace (code, scope, table) eos final ↔
      (eos.tableNamed (code, scope, table) = none →
        (eos.db.rows .tableId).rows[memory.table.unset]? ≠ none) := by
  by_cases canLocate : eos.CanLocate (code, scope, table) memory.table
  · obtain ⟨tab, isLocated⟩ := storeRow_of_canLocate ready canLocate rejected
    cases named : eos.tableNamed (code, scope, table) with
    | some existing =>
        rw [findOrCreateTable_found ready named] at isLocated
        cases isLocated
        exact iff_of_true (leavesNoTrace_refl _ _) (by simp)
    | none =>
        have unused := canLocate named
        obtain ⟨_, _, tableObj, created, isNamed, _⟩ :=
          (createsTable_findOrCreateTable_iff ready named).mpr unused
        rw [created] at isLocated
        cases isLocated
        -- the table of this name is in the database now
        apply iff_of_false
        · intro noTrace
          rw [tableNamed, noTrace.db] at isNamed
          exact Option.some_ne_none _ (isNamed.symm.trans named)
        · exact fun used => used rfl unused
  · obtain ⟨absent, used⟩ := not_canLocate_iff.mp canLocate
    rw [storeRow_of_not_canLocate ready canLocate] at rejected
    cases rejected
    exact iff_of_true (leavesNoTrace_refl _ _) fun _ => used

/-- A store that throws the uniqueness error leaves no trace if and only if its
table was there, or could not be created. -/
theorem rejected_store_leavesNoTrace_iff
    (reachable : Reachable sha ndebug eos.db) (code : Name) (scope : Sha256)
    (table payer : Name) (id : UInt64) (memory : Memory) :
    (∀ (buffer : Bytes) (final : EosDb),
      dbStoreI64 code scope table payer id buffer memory eos =
        .error (.logicError uniquenessMessage) final →
      (LeavesNoTrace (code, scope, table) eos final ↔
        (eos.tableNamed (code, scope, table) = none →
          (eos.db.rows .tableId).rows[memory.table.unset]? ≠ none))) ∧
    ∀ (kind : IndexKind) (value : SecondaryKey kind) (final : EosDb),
      idxStore kind code scope table payer id value memory eos =
        .error (.logicError uniquenessMessage) final →
      (LeavesNoTrace (code, scope, table) eos final ↔
        (eos.tableNamed (code, scope, table) = none →
          (eos.db.rows .tableId).rows[memory.table.unset]? ≠ none)) := by
  have ready := reachable.allWellMade.ready
  constructor
  · intro buffer final rejected
    exact storeRow_leavesNoTrace_iff ready rejected
  · intro kind value final rejected
    exact storeRow_leavesNoTrace_iff ready rejected

/-- The key is in the table already. -/
theorem rejected_store_leavesNoTrace_iff_sameTable :
    ∃ eos : EosDb, Reachable (fun _ => 0) false eos.db ∧
      ∃ final, dbStoreI64 ⟨1⟩ 2 ⟨3⟩ ⟨4⟩ 7 [11] ⟨⟨48, 6⟩, ⟨64, 0⟩⟩ eos =
          .error (.logicError uniquenessMessage) final ∧
        LeavesNoTrace (⟨1⟩, 2, ⟨3⟩) eos final := by
  obtain ⟨eos, reachable, test⟩ := reachable_of_any (fun _ => 0) false
    storeSeven (fun eos =>
      match dbStoreI64 ⟨1⟩ 2 ⟨3⟩ ⟨4⟩ 7 [11] ⟨⟨48, 6⟩, ⟨64, 0⟩⟩ eos with
      | .ok _ _ => false
      | .error fault _ => decide (fault = .logicError uniquenessMessage ∧
          eos.tableNamed (⟨1⟩, 2, ⟨3⟩) ≠ none))
    (by decide +kernel)
  refine ⟨eos, reachable, ?_⟩
  split at test
  · cases test
  · rename_i fault final rejected
    obtain ⟨isUniqueness, present⟩ := of_decide_eq_true test
    rw [isUniqueness] at rejected
    have exactly := (rejected_store_leavesNoTrace_iff reachable ⟨1⟩ 2 ⟨3⟩ ⟨4⟩ 7
      ⟨⟨48, 6⟩, ⟨64, 0⟩⟩).1 [11] final rejected
    exact ⟨final, rejected, exactly.mpr fun absent => absurd absent present⟩

/-- The rejected row leaves the new table behind: a lookup returned -1 before
and returns an end iterator now. -/
theorem rejected_store_newTable :
    ∃ eos : EosDb, Reachable (fun _ => 0) false eos.db ∧
      ∃ final, dbStoreI64 ⟨1⟩ 2 ⟨9⟩ ⟨4⟩ 7 [11] ⟨⟨48, 6⟩, ⟨64, 0⟩⟩ eos =
          .error (.logicError uniquenessMessage) final ∧
        EStateM.run' (dbFindI64 ⟨1⟩ 2 ⟨9⟩ 7) eos = some (-1) ∧
        EStateM.run' (dbFindI64 ⟨1⟩ 2 ⟨9⟩ 7) final = some (-3) ∧
        ¬ LeavesNoTrace (⟨1⟩, 2, ⟨9⟩) eos final := by
  obtain ⟨eos, reachable, test⟩ := reachable_of_any (fun _ => 0) false
    storeSeven (fun eos =>
      match dbStoreI64 ⟨1⟩ 2 ⟨9⟩ ⟨4⟩ 7 [11] ⟨⟨48, 6⟩, ⟨64, 0⟩⟩ eos with
      | .ok _ _ => false
      | .error fault final => decide (
          fault = .logicError uniquenessMessage ∧
          EStateM.run' (dbFindI64 ⟨1⟩ 2 ⟨9⟩ 7) eos = some (-1) ∧
          EStateM.run' (dbFindI64 ⟨1⟩ 2 ⟨9⟩ 7) final = some (-3)))
    (by decide +kernel)
  refine ⟨eos, reachable, ?_⟩
  split at test
  · cases test
  · rename_i fault final rejected
    obtain ⟨isUniqueness, before, after⟩ := of_decide_eq_true test
    refine ⟨final, ?_, before, after, ?_⟩
    · rw [rejected, isUniqueness]
    · intro noTrace
      have same := noTrace.find 7
      rw [before, after] at same
      cases same

end EosDb

end StateDatabase
