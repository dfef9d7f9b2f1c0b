import Mathlib
import StateDatabase.Names
import StateDatabase.WalkRuns

/-!
# Walks through rows that are keyed by names

The primary key of a row can be the value of a name.  Values are compared as
numbers, and this is the alphabetical order of the names, so `db_next_i64`
goes from each row to the one that comes next in the alphabet.
-/

namespace StateDatabase

open Programs EosDb

/-- The name that the key of a row stands for. -/
def KeyValueObject.keyText (row : KeyValueObject) : Bytes :=
  Name.toString ⟨row.primaryKey⟩

theorem keyText_lt_iff (left right : KeyValueObject) :
    left.keyText < right.keyText ↔ left.primaryKey < right.primaryKey :=
  (Name.lt_iff_toString_lt ⟨left.primaryKey⟩ ⟨right.primaryKey⟩).symm

section Next

variable {eos final : EosDb} {ndebug : Bool} {iterator next : Int}
  {primary reported : UInt64} {row : KeyValueObject}

/-- An iterator that can be followed is not negative and leads to a row that
is stored. -/
theorem getObject_row (ready : eos.db.Ready)
    (got : getObject ndebug .keyValue iterator eos = .ok row eos) :
    0 ≤ iterator ∧ (eos.db.rows .keyValue).rows[row.id]? = some row := by
  obtain ⟨address, middle, gets, follows⟩ :=
    bind_apply_ok ((bind_apply_of_ok _ (get_apply eos)).symm.trans got)
  cases found : (eos.caches .keyValue).get ndebug iterator with
  | error fault =>
      rw [found] at gets
      cases gets
  | ok entry =>
      rw [found] at gets
      cases gets
      refine ⟨?_, ((reads_objectAt ready .keyValue _).of_ok follows).2⟩
      by_contra negative
      rw [IteratorCache.get] at found
      split at found
      · cases found
      · rw [if_pos (by omega)] at found
        cases found

/-- What `db_next_i64` reports, from an iterator of a row on. -/
theorem dbNextI64_reports (ready : eos.db.Ready)
    (got : getObject ndebug .keyValue iterator eos = .ok row eos)
    (returned : dbNextI64 ndebug iterator primary eos =
      .ok (next, reported) final) :
    final.db = eos.db ∧ ∃ listed,
      ListsRows (eos.db.rows .keyValue) row.tId
        (fun key => row.primaryKey < key) listed ∧
      reported = (listed.head?.map KeyValueObject.primaryKey).getD primary := by
  obtain ⟨nonneg, found⟩ := getObject_row ready got
  obtain ⟨front, back, neighbours⟩ := exists_neighbours found
  have lists := neighbours.listsRows_back.behind_first
  have looks : indices .keyValue eos = _ := indices_apply ready .keyValue
  have program : dbNextI64 ndebug iterator primary eos = _ :=
    (congrFun (if_neg (by omega)) eos).trans
      ((bind_apply_of_ok _ got).trans (bind_apply_of_ok _ looks))
  rw [program, neighbours.iteratorTo, neighbours.next_row] at returned
  have atEnd : ∀ (result : Except Fault Int),
      (do return (← EosDb.ofExcept result, primary) : EosDbM (Int × UInt64)) eos =
        .ok (next, reported) final → final.db = eos.db ∧ reported = primary := by
    intro result ends
    cases result with
    | error fault => cases ends
    | ok value =>
        cases ends
        exact ⟨rfl, rfl⟩
  cases back with
  | nil =>
      obtain ⟨sameDb, isPrimary⟩ := atEnd _ returned
      exact ⟨sameDb, [], lists, isPrimary⟩
  | cons following rest =>
      by_cases inTable : following.tId = row.tId
      · rw [List.head?_cons] at returned
        simp only [if_neg (not_not.mpr inTable)] at returned
        rw [List.takeWhile_cons_of_pos (ofTable_iff.mpr inTable)] at lists
        cases returned
        exact ⟨rfl, _, lists, rfl⟩
      · rw [List.head?_cons] at returned
        simp only [if_pos inTable] at returned
        have outside : ¬ ofTable row.tId following = true :=
          fun isIn => inTable (ofTable_iff.mp isIn)
        rw [List.takeWhile_cons_of_neg outside] at lists
        obtain ⟨sameDb, isPrimary⟩ := atEnd _ returned
        exact ⟨sameDb, [], lists, isPrimary⟩

end Next

/-- Every walk with `db_next_i64` visits rows with increasing keys. -/
theorem increasing_of_visitsNext {ndebug : Bool} {code : Name} {scope : Sha256}
    {table : Name} {rows : List KeyValueObject} :
    ∀ {eos : EosDb} {iterator : Int}, eos.db.Ready →
      VisitsNext ndebug code scope table eos iterator rows →
        rows.Pairwise fun left right => left.primaryKey < right.primaryKey := by
  induction rows with
  | nil =>
      intro eos iterator ready visits
      exact List.Pairwise.nil
  | cons row rest inductionHypothesis =>
      intro eos iterator ready visits
      obtain ⟨got, goesOn⟩ := visits
      rw [List.pairwise_cons]
      cases rest with
      | nil => exact ⟨nofun, List.Pairwise.nil⟩
      | cons second others =>
          -- a value that is not the key of the next row shows what is reported
          obtain ⟨next, final, returned, later⟩ :=
            goesOn (second.primaryKey + 1)
          obtain ⟨sameDb, listed, lists, reports⟩ :=
            dbNextI64_reports ready got returned
          have sorted := inductionHypothesis (by rw [sameDb]; exact ready) later
          have less : row.primaryKey < second.primaryKey := by
            cases listed with
            | nil =>
                have same : second.primaryKey = second.primaryKey + 1 := reports
                have sameNat := congrArg UInt64.toNat same
                have bound := second.primaryKey.toNat_lt
                rw [UInt64.toNat_add, UInt64.toNat_one] at sameNat
                omega
            | cons first more =>
                have same : second.primaryKey = first.primaryKey := reports
                rw [same]
                exact ((lists.exact first).mp List.mem_cons_self).2.2
          refine ⟨?_, sorted⟩
          intro other member
          rcases List.mem_cons.mp member with rfl | isLater
          · exact less
          · exact UInt64.lt_trans less
              ((List.pairwise_cons.mp sorted).1 other isLater)

/-- The comparison of names is the alphabetical order of their texts; every walk
with `db_next_i64` visits rows in alphabetical order; and a call goes to the row
whose name is the first one behind that of the iterator. -/
theorem names_in_text_order :
    (∀ (left right : StringView) (leftName rightName : Name),
      (Name.set false left []).1 = .ok leftName →
      (Name.set false right []).1 = .ok rightName →
        (leftName < rightName ↔ left.chars < right.chars)) ∧
    (∀ (ndebug : Bool) (code : Name) (scope : Sha256) (table : Name)
      (eos : EosDb) (iterator : Int) (rows : List KeyValueObject),
      eos.db.Ready → VisitsNext ndebug code scope table eos iterator rows →
        rows.Pairwise fun left right => left.keyText < right.keyText) ∧
    (∀ (ndebug : Bool) (eos final : EosDb) (iterator next : Int)
      (primary reported : UInt64) (row other : KeyValueObject),
      eos.db.Ready → getObject ndebug .keyValue iterator eos = .ok row eos →
      dbNextI64 ndebug iterator primary eos = .ok (next, reported) final →
      (eos.db.rows .keyValue).rows[other.id]? = some other →
      other.tId = row.tId → row.keyText < other.keyText →
        ∃ following : KeyValueObject,
          (eos.db.rows .keyValue).rows[following.id]? = some following ∧
          following.tId = row.tId ∧ reported = following.primaryKey ∧
          row.keyText < following.keyText ∧
          ¬ other.keyText < following.keyText) := by
  refine ⟨?_, ?_, ?_⟩
  · intro left right leftName rightName leftAccepted rightAccepted
    rw [Name.lt_iff_toString_lt, (Name.set_ok_iff.mp leftAccepted).2.2,
      (Name.set_ok_iff.mp rightAccepted).2.2]
  · intro ndebug code scope table eos iterator rows ready visits
    apply (increasing_of_visitsNext ready visits).imp
    intro left right less
    exact (keyText_lt_iff left right).mpr less
  · intro ndebug eos final iterator next primary reported row other ready got
      returned found inTable behind
    obtain ⟨_, listed, lists, reports⟩ := dbNextI64_reports ready got returned
    have isListed : other ∈ listed :=
      (lists.exact other).mpr ⟨found, inTable, (keyText_lt_iff row other).mp behind⟩
    cases listed with
    | nil => cases isListed
    | cons following more =>
        obtain ⟨stored, sameTable, less⟩ :=
          (lists.exact following).mp List.mem_cons_self
        refine ⟨following, stored, sameTable, reports,
          (keyText_lt_iff row following).mpr less, ?_⟩
        rw [keyText_lt_iff]
        rcases List.mem_cons.mp isListed with rfl | isLater
        · exact UInt64.lt_irrefl _
        · exact UInt64.lt_asymm
            ((List.pairwise_cons.mp lists.increasing).1 other isLater)

/-- The rows of bob and of alice, in this order. -/
def aliceAndBobCalls : List WalkCall :=
  [.eosCall (.dbStoreI64 ⟨1⟩ 2 ⟨3⟩ ⟨4⟩ 4399453885987553280 []
      ⟨⟨16, 5⟩, ⟨32, 0⟩⟩),
    .eosCall (.dbStoreI64 ⟨1⟩ 2 ⟨3⟩ ⟨4⟩ 3773036822876127232 []
      ⟨⟨48, 6⟩, ⟨64, 0⟩⟩)]

theorem names_in_text_order_aliceAndBob :
    ∃ (alice bob : Name) (eos : EosDb) (iterator : Int)
      (rows : List KeyValueObject),
      (Name.set false ⟨[97, 108, 105, 99, 101], fun _ => 0⟩ []).1 = .ok alice ∧
      (Name.set false ⟨[98, 111, 98], fun _ => 0⟩ []).1 = .ok bob ∧
      alice < bob ∧ VisitsNext false ⟨1⟩ 2 ⟨3⟩ eos iterator rows ∧
      (∃ row ∈ rows, row.primaryKey = alice.value) ∧
      (∃ row ∈ rows, row.primaryKey = bob.value) ∧
      rows.Pairwise fun left right => left.keyText < right.keyText := by
  have test : (Runs.run (EosWithTableIds.step (fun _ => 0) false)
      (EosWithTableIds.start emptyTables fun _ _ => 0) aliceAndBobCalls).any
        (fun final =>
          decide ((final.eos.tableNamed (⟨1⟩, 2, ⟨3⟩)).map TableIdObject.id =
              some 5 ∧ final.eos.tableSize 5 = 2 ∧
            final.eos.keyvalEntries.length = 2 ∧
            (final.eos.caches .keyValue).endIteratorToTable.length = 1 ∧
            (final.eos.db.rows .keyValue).rows.toList.map
                (fun entry => (entry.1, entry.2.id, entry.2.tId,
                  entry.2.primaryKey)) =
              [(3773036822876127232, 3773036822876127232, 5,
                  3773036822876127232),
                (4399453885987553280, 4399453885987553280, 5,
                  4399453885987553280)])) = true := by
    decide +kernel
  obtain ⟨final, ran, holds⟩ := (Option.any_eq_true _ _).mp test
  obtain ⟨isNamed, size, entries, tables, stored⟩ := of_decide_eq_true holds
  obtain ⟨tab, named, isId⟩ := Option.map_eq_some_iff.mp isNamed
  have navigable := Runs.run_preserves
    (fun eosIds : EosWithTableIds => Navigable eosIds.eos eosIds.tableIds)
    (fun _ _ _ navigable allowed stepped =>
      EosWithTableIds.navigable_step navigable allowed stepped)
    (EosWithTableIds.navigable_start emptyTables_ready
      (EosWithIssued.emptyTables_apart _ .keyValue)
      (EosWithIssued.emptyTables_apart _ .tableId)) (by decide +kernel) ran
  have fits : final.eos.Fits tab.id := by
    rw [isId]
    exact fits_of_tableSize (by rw [entries, size]; decide)
      (by rw [tables]; decide)
  have traversal : OrderedTraversal false ⟨1⟩ 2 ⟨3⟩ final.eos tab.id :=
    navigable.orderedTraversal named fits
  obtain ⟨rows, first, started, lists, starts, visits⟩ := traversal.lowerbound 0
  have hasRow : ∀ (id : Int64) (key : UInt64), (id, id, (5 : Int64), key) ∈
      (final.eos.db.rows .keyValue).rows.toList.map (fun entry =>
        (entry.1, entry.2.id, entry.2.tId, entry.2.primaryKey)) →
      ∃ row ∈ rows, row.primaryKey = key := by
    intro id key member
    obtain ⟨entry, isEntry, same⟩ := List.mem_map.mp member
    simp only [Prod.mk.injEq] at same
    obtain ⟨sameId, sameRowId, inTable, isKey⟩ := same
    have found := (Maps.mem_map_toList _ _ _).mp isEntry
    refine ⟨entry.2, (lists.exact entry.2).mpr ⟨?_, ?_, UInt64.zero_le⟩, isKey⟩
    · rw [sameRowId, ← sameId]
      exact found
    · rw [inTable, isId]
  have ready : started.db.Ready :=
    (Ends.of_ok (leavesNavigable_rowAtBound navigable) starts).ready
  obtain ⟨comparesTexts, walksInOrder, _⟩ := names_in_text_order
  have isAlice : (Name.set false ⟨[97, 108, 105, 99, 101], fun _ => 0⟩ []).1 =
      .ok ⟨3773036822876127232⟩ := by
    decide +kernel
  have isBob : (Name.set false ⟨[98, 111, 98], fun _ => 0⟩ []).1 =
      .ok ⟨4399453885987553280⟩ := by
    decide +kernel
  exact ⟨⟨3773036822876127232⟩, ⟨4399453885987553280⟩, started, first, rows,
    isAlice, isBob, (comparesTexts _ _ _ _ isAlice isBob).mpr (by decide),
    visits, hasRow _ _ (by rw [stored]; exact List.mem_cons_self),
    hasRow _ _ (by rw [stored]; exact List.mem_cons_of_mem _ List.mem_cons_self),
    walksInOrder _ _ _ _ _ _ _ ready visits⟩

end StateDatabase
