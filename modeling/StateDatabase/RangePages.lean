import Mathlib
import StateDatabase.RangeWalks

/-!
# Range walks page by page

A caller who does not want all rows at once walks from key to key.  The pages
together are the range from the first key to the last one: no row at the border
of two pages is missed or seen twice, and the sizes of the pages add up.
-/

namespace StateDatabase

open OrderedLists

namespace DbViewer

variable {T : IndexType} (members : List (Member T.Value)) {n : Nat}

/-- Walk from each key to the next one, with one state for all pages. -/
def walkPages {σ : Type} (container : MultiIndex T)
    (function : σ → T.Value → σ) :
    SearchKey members n → List (SearchKey members n) → σ → Except Fault σ
  | _, [], state => .ok state
  | beginKey, endKey :: rest, state => do
      let state ←
        walkRange members container beginKey endKey function state
      walkPages container function endKey rest state

/-- The sizes of the same pages. -/
def sizePages (container : MultiIndex T) :
    SearchKey members n → List (SearchKey members n) → Except Fault Nat
  | _, [] => .ok 0
  | beginKey, endKey :: rest => do
      let size ← sizeRange members container beginKey endKey
      let others ← sizePages container endKey rest
      return size + others

/-- No row has a key from a later key up to an earlier one. -/
def Rising (container : MultiIndex T) :
    SearchKey members n → List (SearchKey members n) → Prop
  | _, [] => True
  | beginKey, endKey :: rest =>
      Ascending members container beginKey endKey ∧
        Rising container endKey rest

variable {members} {container : MultiIndex T}
  {beginKey middleKey endKey : SearchKey members n}

theorem Ascending.refl (key : SearchKey members n) :
    Ascending members container key key :=
  fun _ _ _ before => before

theorem Ascending.trans
    (first : Ascending members container beginKey middleKey)
    (second : Ascending members container middleKey endKey) :
    Ascending members container beginKey endKey :=
  fun id row found before => second id row found (first id row found before)

/-- Keys in their order are in order for every container. -/
theorem ascending_of_not_less
    (inOrder : ¬ CompositeKey.less (members.take n) endKey beginKey) :
    Ascending members container beginKey endKey := by
  intro id row _ before
  rcases trichotomous_of (CompositeKey.less (members.take n)) beginKey endKey
    with isLess | same | isLess
  · exact CompositeKey.less_trans before isLess
  · rw [← same]
    exact before
  · exact absurd isLess inOrder

/-- The last key of a rising list is behind all others. -/
theorem Rising.last {keys : List (SearchKey members n)} :
    ∀ {beginKey : SearchKey members n}, Rising members container beginKey keys →
      Ascending members container beginKey (keys.getLastD beginKey) := by
  induction keys with
  | nil => exact fun _ => .refl _
  | cons key rest inductionHypothesis =>
      intro beginKey rising
      rw [List.getLastD_cons]
      exact rising.1.trans (inductionHypothesis rising.2)

/-- Two ranges that meet are one range. -/
theorem rowsInRange_append
    (first : Ascending members container beginKey middleKey)
    (second : Ascending members container middleKey endKey) :
    rowsInRange members container beginKey endKey =
      rowsInRange members container beginKey middleKey ++
        rowsInRange members container middleKey endKey := by
  rcases split_at_findIdx _ (pairwise_rowBefore container middleKey) with
    ⟨front, isSplit, _, isFront⟩
  have inFront : ∀ row ∈ orderedIndex members container,
      RowBefore members row beginKey → RowBefore members row middleKey := by
    intro row member
    rcases mem_orderedIndex.mp member with ⟨id, found⟩
    exact first id row found
  have inBack : ∀ row ∈ orderedIndex members container,
      RowBefore members row middleKey → RowBefore members row endKey := by
    intro row member
    rcases mem_orderedIndex.mp member with ⟨id, found⟩
    exact second id row found
  conv_lhs => rw [rowsInRange, isSplit, List.filter_append]
  rw [isFront, List.filter_filter, List.filter_filter]
  congr 1
  · apply List.filter_congr
    intro row member
    have before := inBack row member
    simp only [decide_not, Bool.not_not, Bool.decide_and]
    by_cases isBefore : RowBefore members row middleKey
    · simp [isBefore, before isBefore]
    · simp [isBefore]
  · apply List.filter_congr
    intro row member
    have before := inFront row member
    simp only [decide_not, Bool.decide_and]
    by_cases isBefore : RowBefore members row middleKey
    · simp [isBefore]
    · have notBefore : ¬ RowBefore members row beginKey :=
        fun isFirst => isBefore (before isFirst)
      simp [isBefore, notBefore]

/-- A range whose keys are in order is walked to its end. -/
theorem walkRange_of_ascending {σ : Type}
    (ascending : Ascending members container beginKey endKey)
    (function : σ → T.Value → σ) (state : σ) :
    walkRange members container beginKey endKey function state =
      .ok ((rowsInRange members container beginKey endKey).foldl function
        state) := by
  rcases split_range ascending with ⟨front, back, isSplit, isBegin, isEnd⟩
  rw [walkRange, isBegin, isEnd]
  exact rangeLoop_reaches state isSplit

theorem sizeRange_of_ascending
    (ascending : Ascending members container beginKey endKey) :
    sizeRange members container beginKey endKey =
      .ok (rowsInRange members container beginKey endKey).length := by
  rcases split_range ascending with ⟨front, back, isSplit, isBegin, isEnd⟩
  rw [sizeRange, isBegin, isEnd, rangeLoop_reaches 0 isSplit, foldl_count,
    Nat.zero_add]

theorem walkPages_of_rising {σ : Type} {keys : List (SearchKey members n)}
    (function : σ → T.Value → σ) :
    ∀ {beginKey : SearchKey members n} (state : σ),
      Rising members container beginKey keys →
        walkPages members container function beginKey keys state =
          .ok ((rowsInRange members container beginKey
            (keys.getLastD beginKey)).foldl function state) := by
  induction keys with
  | nil =>
      intro beginKey state _
      have noRows :
          rowsInRange members container beginKey beginKey = [] := by
        simp [rowsInRange]
      simp [walkPages, noRows]
  | cons key rest inductionHypothesis =>
      intro beginKey state rising
      have later := Rising.last rising.2
      rw [List.getLastD_cons, rowsInRange_append rising.1 later,
        List.foldl_append, walkPages,
        walkRange_of_ascending rising.1 function state]
      exact inductionHypothesis _ rising.2

theorem sizePages_of_rising {keys : List (SearchKey members n)} :
    ∀ {beginKey : SearchKey members n},
      Rising members container beginKey keys →
        sizePages members container beginKey keys =
          .ok (rowsInRange members container beginKey
            (keys.getLastD beginKey)).length := by
  induction keys with
  | nil =>
      intro beginKey _
      have noRows :
          rowsInRange members container beginKey beginKey = [] := by
        simp [rowsInRange]
      simp [sizePages, noRows]
  | cons key rest inductionHypothesis =>
      intro beginKey rising
      have later := Rising.last rising.2
      rw [List.getLastD_cons, rowsInRange_append rising.1 later,
        List.length_append, sizePages, sizeRange_of_ascending rising.1,
        inductionHypothesis rising.2]
      rfl

/-- The rows of the pages are those of the whole range, each once and in the
order of the index, and their sizes add up to its size. -/
theorem pages_are_range {T : IndexType} (members : List (Member T.Value))
    {n : Nat} (container : MultiIndex T) (beginKey : SearchKey members n)
    (keys : List (SearchKey members n))
    (rising : Rising members container beginKey keys) :
    (∀ (σ : Type) (function : σ → T.Value → σ) (state : σ),
      walkPages members container function beginKey keys state =
        walkRange members container beginKey (keys.getLastD beginKey) function
          state) ∧
      sizePages members container beginKey keys =
        sizeRange members container beginKey (keys.getLastD beginKey) ∧
      ∃ rows : List T.Value,
        (∀ (σ : Type) (function : σ → T.Value → σ) (state : σ),
          walkPages members container function beginKey keys state =
            .ok (rows.foldl function state)) ∧
        sizePages members container beginKey keys = .ok rows.length ∧
        rows.Sublist (orderedIndex members container) ∧
        ∀ row, row ∈ rows ↔
          (∃ id : T.Id, container.rows[id]? = some row) ∧
            ¬ RowBefore members row beginKey ∧
            RowBefore members row (keys.getLastD beginKey) := by
  have whole := rising.last
  have walks : ∀ (σ : Type) (function : σ → T.Value → σ) (state : σ),
      walkPages members container function beginKey keys state = _ :=
    fun σ function state => walkPages_of_rising function state rising
  have sizes := sizePages_of_rising rising
  refine ⟨?_, ?_, rowsInRange members container beginKey
    (keys.getLastD beginKey), walks, sizes, List.filter_sublist, ?_⟩
  · intro σ function state
    rw [walks, walkRange_of_ascending whole]
  · rw [sizes, sizeRange_of_ascending whole]
  · intro row
    rw [rowsInRange, List.mem_filter, mem_orderedIndex, decide_eq_true_iff]

/-- Three rows of two tables, in pages that end in a table and between them. -/
def threeKeyValues : MultiIndex keyValueIndex :=
  [⟨1, 5, 7, ⟨4⟩, [10]⟩, ⟨2, 5, 9, ⟨4⟩, []⟩, ⟨3, 6, 7, ⟨4⟩, [11]⟩].foldl
    (fun rows row => (rows.emplace row).getD rows)
    (MultiIndex.empty keyValueIndex)

theorem pages_are_range_three :
    sizePages (T := keyValueIndex) scopePrimaryMembers threeKeyValues
        (scopePrimaryKey 5 0)
        [scopePrimaryKey 5 8, scopePrimaryKey 6 0, scopePrimaryKey 6 9] =
      sizeRange (T := keyValueIndex) scopePrimaryMembers threeKeyValues
        (scopePrimaryKey 5 0) (scopePrimaryKey 6 9) :=
  (pages_are_range (T := keyValueIndex) scopePrimaryMembers threeKeyValues
    (scopePrimaryKey 5 0)
    [scopePrimaryKey 5 8, scopePrimaryKey 6 0, scopePrimaryKey 6 9]
    ⟨ascending_of_not_less (by decide), ascending_of_not_less (by decide),
      ascending_of_not_less (by decide), trivial⟩).2.1

end DbViewer

end StateDatabase
