import Mathlib
import StateDatabase.StoreSessions

/-!
# Counts under sessions

The counts of the tables are rows of an index themselves, so a session saves
them and an undo puts them back, apart from the rows that they count.  They stay
right all the same, and together they are the number of all rows.
-/

namespace StateDatabase

open Programs GenericIndex EosDb Snapshots

/-! ## Totals -/

section Sums

variable {α κ : Type} [DecidableEq κ]

theorem sum_map_indicator (key : κ) (keys : List κ) :
    (keys.map fun other => if key = other then 1 else 0).sum =
      keys.count key := by
  induction keys with
  | nil => simp
  | cons first rest inductionHypothesis =>
      simp only [List.map_cons, List.sum_cons, List.count_cons,
        inductionHypothesis, beq_iff_eq]
      rw [Nat.add_comm]
      simp only [eq_comm]

/-- Items that all have one of the keys are counted key by key. -/
theorem sum_countP_of_mem {keys : List κ} (nodup : keys.Nodup) {key : α → κ}
    {items : List α} (keyed : ∀ item ∈ items, key item ∈ keys) :
    (keys.map fun other =>
      items.countP fun item => decide (key item = other)).sum =
        items.length := by
  induction items with
  | nil => simp
  | cons first rest inductionHypothesis =>
      have counted := inductionHypothesis fun item member =>
        keyed item (List.mem_cons_of_mem first member)
      have once : keys.count (key first) = 1 :=
        List.count_eq_one_of_mem nodup (keyed first List.mem_cons_self)
      simp only [List.countP_cons, decide_eq_true_eq, List.sum_map_add,
        counted, sum_map_indicator, once, List.length_cons]

end Sums

/-- The counts of all tables. -/
def countTotal (contents : Contents) : Nat :=
  ((contents .tableId).rows.toList.map fun entry => entry.2.count.toNat).sum

/-- The rows of all row tables. -/
def rowTotal (contents : Contents) : Nat :=
  (RowTable.all.map fun r => (contents r.type).rows.toList.length).sum

section Totals

variable {contents : Contents}

/-- The rows of one row table belong to the tables that are stored. -/
theorem Balanced.total_of_rows (balanced : Balanced contents) (r : RowTable) :
    (((contents .tableId).rows.toList.map Prod.fst).map fun tab =>
      (contents r.type).countIf fun row => r.tId row = tab).sum =
        (contents r.type).rows.toList.length := by
  apply sum_countP_of_mem (Maps.nodup_map_keys _)
  intro entry member
  have found := (Maps.mem_map_toList _ entry.1 entry.2).mp member
  rcases balanced.owned r entry.1 entry.2 found with ⟨tableObj, hasTable⟩
  rw [Maps.map_key_mem_iff, hasTable]
  exact Option.some_ne_none tableObj

/-- Every row is counted by exactly one table. -/
theorem Balanced.total (balanced : Balanced contents) :
    countTotal contents = rowTotal contents := by
  have counts : countTotal contents =
      (((contents .tableId).rows.toList.map Prod.fst).map fun tab =>
        rowsOf contents tab).sum := by
    rw [countTotal, List.map_map]
    congr 1
    apply List.map_congr_left
    intro entry member
    exact balanced.counted entry.1 entry.2
      ((Maps.mem_map_toList _ _ _).mp member)
  rw [counts, rowTotal]
  simp only [rowsOf, RowTable.all, List.map_cons, List.map_nil, List.sum_cons,
    List.sum_nil, List.sum_map_add]
  rw [balanced.total_of_rows .keyValue, balanced.total_of_rows (.index .idx64),
    balanced.total_of_rows (.index .idx128),
    balanced.total_of_rows (.index .idx256)]
  simp

/-- Every row belongs to a table that counts it, every table counts its rows,
and the tables together count all rows. -/
structure Exact (contents : Contents) : Prop where
  owned : ∀ (r : RowTable) (id : (indexOf r.type).Id)
    (row : (indexOf r.type).Value), (contents r.type).rows[id]? = some row →
      ∃ tableObj, (contents .tableId).rows[r.tId row]? = some tableObj ∧
        0 < tableObj.count.toNat
  counted : ∀ (tab : Int64) (tableObj : TableIdObject),
    (contents .tableId).rows[tab]? = some tableObj →
      tableObj.count.toNat = rowsOf contents tab
  total : countTotal contents = rowTotal contents

theorem Balanced.exact (balanced : Balanced contents) : Exact contents where
  owned := by
    intro r id row found
    rcases balanced.owned r id row found with ⟨tableObj, hasTable⟩
    refine ⟨tableObj, hasTable, ?_⟩
    rw [balanced.counted _ tableObj hasTable]
    exact rowsOf_pos found
  counted := balanced.counted
  total := balanced.total

end Totals

namespace EosWithSessions

/-- In every state of the system the counts are exact, and they are exact again
in what `undo` and `undo_all` leave. -/
theorem counts_outlive_sessions (sha : Bytes → Sha256) (ndebug : Bool)
    (place : (t : TableType) → (indexOf t).Id → Address)
    (calls : List RowOrSessionCall)
    (permitted : Runs.AllowedFrom (step sha ndebug)
      (Permitted sha ndebug fun _ => SquashSafe) (start place) calls) :
    ∃ final, Runs.run (step sha ndebug) (start place) calls = some final ∧
      Exact final.log.eos.db.rows ∧
      (∃ undone, Database.undo final.log.eos.db = .ok ⟨⟩ undone ∧
        Exact undone.rows) ∧
      ∃ unwound, Database.undoAll final.log.eos.db = .ok ⟨⟩ unwound ∧
        Exact unwound.rows := by
  rcases agrees_run (start_agrees place) permitted with
    ⟨final, copying, finished, _, agrees⟩
  rcases agrees.undone with
    ⟨⟨undone, undoes, orderlyUndone, _⟩, unwound, unwinds, orderlyUnwound, _⟩
  exact ⟨final, finished, agrees.sound.consistent.balanced.exact,
    ⟨undone, undoes, orderlyUndone.balanced.exact⟩, unwound, unwinds,
    orderlyUnwound.balanced.exact⟩

theorem counts_outlive_sessions_nested :
    ∃ final, Runs.run (step (fun _ => 0) false) (start fun _ _ => 0)
        nestedCalls = some final ∧
      Exact final.log.eos.db.rows ∧
      (∃ undone, Database.undo final.log.eos.db = .ok ⟨⟩ undone ∧
        Exact undone.rows) ∧
      ∃ unwound, Database.undoAll final.log.eos.db = .ok ⟨⟩ unwound ∧
        Exact unwound.rows :=
  counts_outlive_sessions (fun _ => 0) false (fun _ _ => 0) nestedCalls
    nestedCalls_permitted

end EosWithSessions

end StateDatabase
