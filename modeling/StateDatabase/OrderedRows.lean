import Mathlib
import StateDatabase.Library.OrderedLists
import StateDatabase.Traversal

/-!
# The rows of a table in order

The index `by_scope_primary` has the rows of all tables, sorted by table and
primary key.  So the rows of one table are neighbours in it, and the rows of a
table from some key on follow the position that `lower_bound` returns.
-/

namespace StateDatabase

open OrderedLists

/-! ## The order -/

theorem scopePrimaryLess_iff (left right : Int64 × UInt64) :
    scopePrimaryLess left right ↔
      left.1.toInt < right.1.toInt ∨
        left.1.toInt = right.1.toInt ∧ left.2.toNat < right.2.toNat := by
  rw [scopePrimaryLess, Int64.lt_iff_toInt_lt, UInt64.lt_iff_toNat_lt,
    Int64.toInt_inj]

instance : IsStrictTotalOrder (Int64 × UInt64) scopePrimaryLess where
  trichotomous := by
    intro left right notLess notGreater
    rw [scopePrimaryLess_iff] at notLess notGreater
    apply Prod.ext
    · exact Int64.toInt_inj.mp (by omega)
    · exact UInt64.toNat_inj.mp (by omega)
  irrefl := by
    intro key isLess
    rw [scopePrimaryLess_iff] at isLess
    omega
  trans := by
    intro left middle right isLess isLess'
    rw [scopePrimaryLess_iff] at isLess isLess' ⊢
    omega

variable {rows : MultiIndex keyValueIndex}

theorem mem_byScopePrimary {row : KeyValueObject} :
    row ∈ byScopePrimary rows ↔ rows.rows[row.id]? = some row := by
  rw [byScopePrimary, List.mem_insertionSort, List.mem_map]
  constructor
  · rintro ⟨entry, member, rfl⟩
    have found := (Maps.mem_map_toList _ entry.1 entry.2).mp member
    have isId : entry.2.id = entry.1 := rows.keyed found
    rw [isId]
    exact found
  · intro found
    exact ⟨(row.id, row), (Maps.mem_map_toList _ _ _).mpr found, rfl⟩

/-- No two rows have the same table and the same primary key. -/
theorem pairwise_byScopePrimary (rows : MultiIndex keyValueIndex) :
    (byScopePrimary rows).Pairwise fun left right =>
      scopePrimaryLess left.scopePrimary right.scopePrimary := by
  apply pairwise_less_insertionSort
  rw [List.pairwise_map]
  have distinctIds := Maps.nodup_map_keys rows.rows
  rw [List.Nodup, List.pairwise_map] at distinctIds
  apply distinctIds.imp_of_mem
  intro left right isLeft isRight different same
  exact different (rows.unique ((Maps.mem_map_toList _ _ _).mp isLeft)
    ((Maps.mem_map_toList _ _ _).mp isRight)
    ((clash_keyValue_iff left.2 right.2).mpr same))

/-! ## A row and its neighbours -/

/-- The rows before a row and the rows behind it. -/
structure Neighbours (rows : MultiIndex keyValueIndex)
    (front : List KeyValueObject) (row : KeyValueObject)
    (back : List KeyValueObject) : Prop where
  split : byScopePrimary rows = front ++ row :: back
  found : rows.rows[row.id]? = some row
  before : ∀ other ∈ front,
    scopePrimaryLess other.scopePrimary row.scopePrimary
  behind : ∀ other ∈ back,
    scopePrimaryLess row.scopePrimary other.scopePrimary
  sorted : (front ++ row :: back).Pairwise fun left right =>
    scopePrimaryLess left.scopePrimary right.scopePrimary

variable {front back : List KeyValueObject} {row : KeyValueObject}

theorem neighbours_of_split
    (split : byScopePrimary rows = front ++ row :: back) :
    Neighbours rows front row back := by
  have sorted := pairwise_byScopePrimary rows
  rw [split] at sorted
  obtain ⟨_, behind, across⟩ := List.pairwise_append.mp sorted
  refine ⟨split, mem_byScopePrimary.mp ?_, ?_, ?_, sorted⟩
  · rw [split]
    exact List.mem_append_right front List.mem_cons_self
  · exact fun other member => across other member row List.mem_cons_self
  · exact (List.pairwise_cons.mp behind).1

theorem exists_neighbours (found : rows.rows[row.id]? = some row) :
    ∃ front back, Neighbours rows front row back := by
  obtain ⟨front, back, split⟩ :=
    List.append_of_mem (mem_byScopePrimary.mpr found)
  exact ⟨front, back, neighbours_of_split split⟩

/-- The next row takes the place of the row. -/
theorem Neighbours.next {next : KeyValueObject}
    (neighbours : Neighbours rows front row (next :: back)) :
    Neighbours rows (front ++ [row]) next back := by
  apply neighbours_of_split
  rw [neighbours.split, List.append_assoc, List.singleton_append]

/-- The previous row takes the place of the row. -/
theorem Neighbours.previous {previous : KeyValueObject}
    (neighbours : Neighbours rows (front ++ [previous]) row back) :
    Neighbours rows front previous (row :: back) := by
  apply neighbours_of_split
  rw [neighbours.split, List.append_assoc, List.singleton_append]

theorem Neighbours.iteratorTo (neighbours : Neighbours rows front row back) :
    OrderedIndex.iteratorTo (byScopePrimary rows) row = front.length := by
  rw [OrderedIndex.iteratorTo, neighbours.split]
  apply findIdx_of_key
  intro other member sameId
  have isOther := mem_byScopePrimary.mp
    (neighbours.split ▸ List.mem_append_left (row :: back) member)
  rw [sameId, neighbours.found] at isOther
  cases isOther
  exact irrefl_of scopePrimaryLess row.scopePrimary
    (neighbours.before row member)

theorem Neighbours.next_row (neighbours : Neighbours rows front row back) :
    (byScopePrimary rows)[front.length + 1]? = back.head? := by
  rw [neighbours.split, List.getElem?_append_right (by omega),
    Nat.add_sub_cancel_left, List.getElem?_cons_succ, List.head?_eq_getElem?]

/-! ## Ranges of a table -/

/-- The rows of a table whose keys are in a range, in increasing order. -/
structure ListsRows (rows : MultiIndex keyValueIndex) (tab : Int64)
    (within : UInt64 → Prop) (listed : List KeyValueObject) : Prop where
  exact : ∀ row, row ∈ listed ↔
    rows.rows[row.id]? = some row ∧ row.tId = tab ∧ within row.primaryKey
  increasing : listed.Pairwise fun left right =>
    left.primaryKey < right.primaryKey

/-- The test for the table. -/
def ofTable (tab : Int64) (row : KeyValueObject) : Bool :=
  row.tId = tab

theorem ofTable_iff {tab : Int64} : ofTable tab row = true ↔ row.tId = tab :=
  decide_eq_true_iff

theorem key_lt_of_less {left right : KeyValueObject}
    (same : left.tId = right.tId)
    (isLess : scopePrimaryLess left.scopePrimary right.scopePrimary) :
    left.primaryKey < right.primaryKey := by
  rcases isLess with isLess | ⟨_, isLess⟩
  · rw [KeyValueObject.scopePrimary, KeyValueObject.scopePrimary, same] at isLess
    exact absurd isLess Int64.lt_irrefl
  · exact isLess

/-- Rows of one table that are sorted have increasing keys. -/
theorem increasing_of_sorted {listed : List KeyValueObject} {tab : Int64}
    (sorted : listed.Pairwise fun left right =>
      scopePrimaryLess left.scopePrimary right.scopePrimary)
    (inTable : ∀ row ∈ listed, row.tId = tab) :
    listed.Pairwise fun left right => left.primaryKey < right.primaryKey := by
  apply sorted.imp_of_mem
  intro left right isLeft isRight isLess
  exact key_lt_of_less ((inTable left isLeft).trans (inTable right isRight).symm)
    isLess

section ListsRows

variable {tab : Int64} {within : UInt64 → Prop} {listed : List KeyValueObject}

theorem ListsRows.nodup (lists : ListsRows rows tab within listed) :
    listed.Nodup := by
  apply lists.increasing.imp
  rintro left right isLess rfl
  exact UInt64.lt_irrefl _ isLess

/-- A range has one list. -/
theorem ListsRows.unique {other : List KeyValueObject}
    (lists : ListsRows rows tab within listed)
    (lists' : ListsRows rows tab within other) : listed = other := by
  have perm : listed.Perm other := by
    rw [List.perm_ext_iff_of_nodup lists.nodup lists'.nodup]
    intro row
    rw [lists.exact, lists'.exact]
  apply perm.eq_of_pairwise _ lists.increasing lists'.increasing
  intro left right _ _ isLess isLess'
  exact absurd (UInt64.lt_trans isLess isLess') (UInt64.lt_irrefl _)

/-- Ranges that agree on the rows of the table have the same list. -/
theorem ListsRows.congr {within' : UInt64 → Prop}
    (lists : ListsRows rows tab within listed)
    (agree : ∀ row : KeyValueObject, rows.rows[row.id]? = some row →
      row.tId = tab → (within row.primaryKey ↔ within' row.primaryKey)) :
    ListsRows rows tab within' listed := by
  refine ⟨?_, lists.increasing⟩
  intro row
  rw [lists.exact]
  apply and_congr_right
  intro found
  apply and_congr_right
  exact agree row found

/-- From some key on, the range begins with its first row. -/
theorem ListsRows.from_first {rest : List KeyValueObject}
    (rising : ∀ {left right : UInt64}, left ≤ right → within left →
      within right)
    (lists : ListsRows rows tab within (row :: rest)) :
    ListsRows rows tab (fun key => row.primaryKey ≤ key) (row :: rest) := by
  have isFirst := (List.pairwise_cons.mp lists.increasing).1
  have isWithin := ((lists.exact row).mp List.mem_cons_self).2.2
  apply lists.congr
  intro other found inTable
  constructor
  · intro otherWithin
    have member := (lists.exact other).mpr ⟨found, inTable, otherWithin⟩
    rcases List.mem_cons.mp member with same | isRest
    · rw [same]
      exact UInt64.le_refl _
    · exact UInt64.le_of_lt (isFirst other isRest)
  · exact fun isBehind => rising isBehind isWithin

/-- Without its first row, the range is open. -/
theorem ListsRows.behind_first {rest : List KeyValueObject}
    (lists : ListsRows rows tab (fun key => row.primaryKey ≤ key)
      (row :: rest)) :
    ListsRows rows tab (fun key => row.primaryKey < key) rest := by
  obtain ⟨isFirst, increasing⟩ := List.pairwise_cons.mp lists.increasing
  refine ⟨?_, increasing⟩
  intro other
  constructor
  · intro member
    have listed := (lists.exact other).mp (List.mem_cons_of_mem row member)
    exact ⟨listed.1, listed.2.1, isFirst other member⟩
  · rintro ⟨found, inTable, isLess⟩
    have member := (lists.exact other).mpr
      ⟨found, inTable, UInt64.le_of_lt isLess⟩
    rcases List.mem_cons.mp member with same | isRest
    · rw [same] at isLess
      exact absurd isLess (UInt64.lt_irrefl _)
    · exact isRest

end ListsRows

/-- The rows behind a row, as far as they are in its table. -/
theorem Neighbours.takeWhile_back
    (neighbours : Neighbours rows front row back) :
    back.takeWhile (ofTable row.tId) = back.filter (ofTable row.tId) := by
  apply takeWhile_eq_filter
  have sorted := (List.pairwise_append.mp neighbours.sorted).2.1
  apply (List.pairwise_cons.mp sorted).2.imp_of_mem
  intro left right isLeft _ isLess inTable
  rw [ofTable_iff] at inTable ⊢
  have isBehind := neighbours.behind left isLeft
  rw [scopePrimaryLess_iff] at isLess isBehind
  simp only [KeyValueObject.scopePrimary, inTable] at isLess isBehind
  exact Int64.toInt_inj.mp (by omega)

/-- The rows before a position at which no row of a later table stands, going
back as far as they are in the table. -/
theorem takeWhile_reverse {tab : Int64}
    (sorted : front.Pairwise fun left right =>
      scopePrimaryLess left.scopePrimary right.scopePrimary)
    (upTo : ∀ other ∈ front, other.tId.toInt ≤ tab.toInt) :
    front.reverse.takeWhile (ofTable tab) =
      (front.filter (ofTable tab)).reverse := by
  rw [← List.filter_reverse]
  apply takeWhile_eq_filter
  rw [List.pairwise_reverse]
  apply sorted.imp_of_mem
  intro left right _ isRight isLess inTable
  rw [ofTable_iff] at inTable ⊢
  have isUpTo := upTo right isRight
  rw [scopePrimaryLess_iff] at isLess
  simp only [KeyValueObject.scopePrimary, inTable] at isLess
  exact Int64.toInt_inj.mp (by omega)

/-- The rows of the table from a row on. -/
theorem Neighbours.listsRows_back
    (neighbours : Neighbours rows front row back) :
    ListsRows rows row.tId (fun key => row.primaryKey ≤ key)
      (row :: back.takeWhile (ofTable row.tId)) := by
  rw [neighbours.takeWhile_back]
  have sorted := (List.pairwise_append.mp neighbours.sorted).2.1
  have isSublist : (row :: back.filter (ofTable row.tId)).Sublist
      (row :: back) := List.filter_sublist.cons_cons row
  constructor
  · intro other
    rw [List.mem_cons, List.mem_filter, ofTable_iff]
    constructor
    · rintro (rfl | ⟨isBehind, inTable⟩)
      · exact ⟨neighbours.found, rfl, UInt64.le_refl _⟩
      · refine ⟨mem_byScopePrimary.mp ?_, inTable, ?_⟩
        · rw [neighbours.split]
          exact List.mem_append_right front (List.mem_cons_of_mem row isBehind)
        · exact UInt64.le_of_lt (key_lt_of_less inTable.symm
            (neighbours.behind other isBehind))
    · rintro ⟨found, inTable, isAbove⟩
      have member := mem_byScopePrimary.mpr found
      rw [neighbours.split, List.mem_append, List.mem_cons] at member
      rcases member with isBefore | isRow | isBehind
      · have isLess := key_lt_of_less inTable (neighbours.before other isBefore)
        exact absurd isAbove (UInt64.not_le.mpr isLess)
      · exact Or.inl isRow
      · exact Or.inr ⟨isBehind, inTable⟩
  · apply increasing_of_sorted (sorted.sublist isSublist)
    intro other member
    rcases List.mem_cons.mp member with isRow | isBehind
    · exact congrArg KeyValueObject.tId isRow
    · exact ofTable_iff.mp (List.mem_filter.mp isBehind).2

/-- The rows of the table before a row. -/
theorem Neighbours.listsRows_front
    (neighbours : Neighbours rows front row back) :
    ListsRows rows row.tId (fun key => key < row.primaryKey)
      (front.filter (ofTable row.tId)) := by
  have sorted := (List.pairwise_append.mp neighbours.sorted).1
  constructor
  · intro other
    rw [List.mem_filter, ofTable_iff]
    constructor
    · rintro ⟨isBefore, inTable⟩
      refine ⟨mem_byScopePrimary.mp ?_, inTable, ?_⟩
      · rw [neighbours.split]
        exact List.mem_append_left (row :: back) isBefore
      · exact key_lt_of_less inTable (neighbours.before other isBefore)
    · rintro ⟨found, inTable, isBelow⟩
      have member := mem_byScopePrimary.mpr found
      rw [neighbours.split, List.mem_append, List.mem_cons] at member
      rcases member with isBefore | rfl | isBehind
      · exact ⟨isBefore, inTable⟩
      · exact absurd isBelow (UInt64.lt_irrefl _)
      · have isLess := key_lt_of_less inTable.symm
          (neighbours.behind other isBehind)
        exact absurd (UInt64.lt_trans isBelow isLess) (UInt64.lt_irrefl _)
  · apply increasing_of_sorted (sorted.sublist List.filter_sublist)
    exact fun other member => ofTable_iff.mp (List.mem_filter.mp member).2

/-! ## Bounds -/

/-- The position of a row is past that of a table and a range of its keys. -/
def Beyond (tab : Int64) (above : UInt64 → Prop) [DecidablePred above]
    (row : KeyValueObject) : Bool :=
  tab < row.tId ∨ row.tId = tab ∧ above row.primaryKey

theorem lowerBound_eq (idx : List KeyValueObject) (tab : Int64) (id : UInt64) :
    OrderedIndex.lowerBound idx (tab, id) =
      idx.findIdx (Beyond tab fun key => id ≤ key) := by
  rw [OrderedIndex.lowerBound]
  congr 1
  funext row
  rw [Beyond, decide_eq_decide, scopePrimaryLess_iff, Int64.lt_iff_toInt_lt,
    UInt64.le_iff_toNat_le, ← Int64.toInt_inj]
  simp only [KeyValueObject.scopePrimary]
  omega

theorem upperBound_eq (idx : List KeyValueObject) (tab : Int64) (id : UInt64) :
    OrderedIndex.upperBound idx (tab, id) =
      idx.findIdx (Beyond tab fun key => id < key) := by
  rw [OrderedIndex.upperBound]
  congr 1
  funext row
  rw [Beyond, decide_eq_decide, scopePrimaryLess]
  simp only [KeyValueObject.scopePrimary, eq_comm]

section Bounds

variable {tab : Int64} {above : UInt64 → Prop} [DecidablePred above]

/-- The row at a bound, if it is in the table, is the first row of the range. -/
theorem row_at_bound {next : KeyValueObject}
    (rising : ∀ {left right : UInt64}, left ≤ right → above left → above right)
    (isNext : (byScopePrimary rows)[(byScopePrimary rows).findIdx
      (Beyond tab above)]? = some next)
    (inTable : next.tId = tab) :
    ∃ front back, Neighbours rows front next back ∧
      ListsRows rows tab above (next :: back.takeWhile (ofTable tab)) := by
  rw [← List.find?_eq_getElem?_findIdx, List.find?_eq_some_iff_append] at isNext
  obtain ⟨isBeyond, front, back, split, notBeyond⟩ := isNext
  have neighbours := neighbours_of_split split
  have listed := neighbours.listsRows_back
  rw [Beyond, decide_eq_true_iff, inTable] at isBeyond
  have isAbove : above next.primaryKey :=
    (isBeyond.resolve_left Int64.lt_irrefl).2
  rw [inTable] at listed
  refine ⟨front, back, neighbours, ?_, listed.increasing⟩
  intro other
  rw [listed.exact]
  apply and_congr_right
  intro found
  apply and_congr_right
  intro otherTable
  constructor
  · exact fun isBehind => rising isBehind isAbove
  · intro otherAbove
    have member := mem_byScopePrimary.mpr found
    rw [split, List.mem_append, List.mem_cons] at member
    rcases member with isBefore | rfl | isBehind
    · have refuted := notBeyond other isBefore
      rw [Bool.not_eq_true', Beyond, decide_eq_false_iff_not] at refuted
      exact absurd (Or.inr ⟨otherTable, otherAbove⟩) refuted
    · exact UInt64.le_refl _
    · exact UInt64.le_of_lt (key_lt_of_less (inTable.trans otherTable.symm)
        (neighbours.behind other isBehind))

/-- When there is no row at a bound, or one of a later table, the range is
empty. -/
theorem no_row_at_bound
    (notInTable : ∀ next, (byScopePrimary rows)[(byScopePrimary rows).findIdx
      (Beyond tab above)]? = some next → next.tId ≠ tab) :
    ListsRows rows tab above [] := by
  refine ⟨?_, List.Pairwise.nil⟩
  intro other
  rw [List.mem_nil_iff, false_iff]
  rintro ⟨found, inTable, isAbove⟩
  have member := mem_byScopePrimary.mpr found
  have otherBeyond : Beyond tab above other = true :=
    decide_eq_true (Or.inr ⟨inTable, isAbove⟩)
  cases hit : (byScopePrimary rows).find? (Beyond tab above) with
  | none =>
      exact absurd otherBeyond (List.find?_eq_none.mp hit other member)
  | some next =>
      have different := notInTable next
        (by rw [← List.find?_eq_getElem?_findIdx, hit])
      obtain ⟨isBeyond, front, back, split, notBeyond⟩ :=
        List.find?_eq_some_iff_append.mp hit
      have neighbours := neighbours_of_split split
      rw [Beyond, decide_eq_true_iff] at isBeyond
      have isLater := isBeyond.resolve_right fun same => different same.1
      rw [split, List.mem_append, List.mem_cons] at member
      rcases member with isBefore | rfl | isBehind
      · have refuted := notBeyond other isBefore
        rw [otherBeyond] at refuted
        cases refuted
      · exact different inTable
      · have isLess := neighbours.behind other isBehind
        rw [scopePrimaryLess_iff] at isLess
        rw [Int64.lt_iff_toInt_lt] at isLater
        simp only [KeyValueObject.scopePrimary, inTable] at isLess
        omega

end Bounds

/-- What stands before the end of a table. -/
theorem split_at_tableUpperBound (rows : MultiIndex keyValueIndex)
    (tab : Int64) :
    ∃ front back, byScopePrimary rows = front ++ back ∧
      front.length =
        OrderedIndex.tableUpperBound (byScopePrimary rows) tab ∧
      (∀ other ∈ front, other.tId.toInt ≤ tab.toInt) ∧
      ListsRows rows tab (fun _ => True) (front.filter (ofTable tab)) := by
  have sorted := pairwise_byScopePrimary rows
  obtain ⟨front, split, isLength, isFront⟩ :=
    split_at_findIdx (fun row : KeyValueObject => decide (tab < row.tId))
      (sorted.imp (by
        intro left right isLess isLater
        rw [decide_eq_true_iff, Int64.lt_iff_toInt_lt] at isLater ⊢
        rw [scopePrimaryLess_iff] at isLess
        simp only [KeyValueObject.scopePrimary] at isLess
        omega))
  have upTo : ∀ other ∈ front, other.tId.toInt ≤ tab.toInt := by
    intro other member
    rw [isFront, List.mem_filter] at member
    simpa [Int64.lt_iff_toInt_lt] using member.2
  refine ⟨front, _, split, isLength, upTo, ?_, ?_⟩
  · intro other
    rw [List.mem_filter, ofTable_iff, isFront, List.mem_filter,
      mem_byScopePrimary]
    constructor
    · exact fun member => ⟨member.1.1, member.2, trivial⟩
    · rintro ⟨found, inTable, _⟩
      refine ⟨⟨found, ?_⟩, inTable⟩
      simp [inTable, Int64.lt_irrefl]
  · rw [split] at sorted
    have isSorted := (List.pairwise_append.mp sorted).1
    apply increasing_of_sorted (isSorted.sublist List.filter_sublist)
    exact fun other member => ofTable_iff.mp (List.mem_filter.mp member).2

end StateDatabase
