import Mathlib
import StateDatabase.Library.OrderedLists
import StateDatabase.OrderedRows

/-!
# `db_viewer`

`walk_range` and `size_range` go from the lower bound of one key to the lower
bound of another one in an ordered index.  The rows of an index are sorted by
a composite key, and a search key gives its first members, all of them or
fewer.

A position in the index is a number: `begin()` is 0 and `end()` is the number
of rows.  The loops compare positions for inequality only, so they go past the
end when the second position is before the first one.
-/

namespace StateDatabase

open OrderedLists

/-! ## Composite keys -/

/-- `member<…>` of a row and the order of its values. -/
structure Member (Value : Type) where
  Part : Type
  [decEq : DecidableEq Part]
  less : Part → Part → Prop
  [decLess : DecidableRel less]
  [order : IsStrictTotalOrder Part less]
  get : Value → Part

attribute [instance] Member.decEq Member.decLess Member.order

namespace Member

/-- A member that is compared with `std::less` of a number. -/
abbrev ofNumber {Value Part : Type} [DecidableEq Part] (number : Part → Int)
    (injective : Function.Injective number) (get : Value → Part) :
    Member Value where
  Part := Part
  less := fun left right => number left < number right
  order :=
    { trichotomous := fun _ _ notLess notGreater =>
        injective (le_antisymm (not_lt.mp notGreater) (not_lt.mp notLess))
      irrefl := fun part => lt_irrefl (number part)
      trans := fun _ _ _ isLess isLess' => isLess.trans isLess' }
  get := get

end Member

variable {Value : Type}

/-- The values of some members, in the order of the members. -/
def CompositeKey : List (Member Value) → Type
  | [] => Unit
  | part :: rest => part.Part × CompositeKey rest

namespace CompositeKey

/-- `composite_key_compare`: the first member that differs decides. -/
def less : (members : List (Member Value)) →
    CompositeKey members → CompositeKey members → Prop
  | [], _, _ => False
  | part :: rest, left, right =>
      part.less left.1 right.1 ∨ left.1 = right.1 ∧ less rest left.2 right.2

instance decidableLess :
    ∀ members : List (Member Value), DecidableRel (less members)
  | [], _, _ => isFalse id
  | part :: rest, left, right =>
      have := decidableLess rest left.2 right.2
      inferInstanceAs (Decidable (part.less left.1 right.1 ∨
        left.1 = right.1 ∧ less rest left.2 right.2))

/-- The key of a row. -/
def ofRow : (members : List (Member Value)) → Value → CompositeKey members
  | [], _ => ⟨⟩
  | part :: rest, row => (part.get row, ofRow rest row)

end CompositeKey

/-- A full key, or the first members of one. -/
abbrev SearchKey (members : List (Member Value)) (n : Nat) : Type :=
  CompositeKey (members.take n)

/-- The row stands before the search key. -/
def RowBefore (members : List (Member Value)) {n : Nat} (row : Value)
    (key : SearchKey members n) : Prop :=
  CompositeKey.less _ (CompositeKey.ofRow (members.take n) row) key

instance (members : List (Member Value)) {n : Nat} (row : Value)
    (key : SearchKey members n) : Decidable (RowBefore members row key) :=
  inferInstanceAs (Decidable (CompositeKey.less _ _ _))

/-- The rows of a container as an ordered index has them. -/
def orderedIndex {T : IndexType} (members : List (Member T.Value))
    (container : MultiIndex T) : List T.Value :=
  (container.rows.toList.map Prod.snd).insertionSort fun left right =>
    ¬ CompositeKey.less members (CompositeKey.ofRow members right)
      (CompositeKey.ofRow members left)

/-- `lower_bound` -/
def lowerBoundOf (members : List (Member Value)) {n : Nat} (idx : List Value)
    (key : SearchKey members n) : Nat :=
  idx.findIdx fun row => ¬ RowBefore members row key

/-! ## The loops -/

namespace DbViewer

/-- `while (itr != end_itr)` with `++itr` at the end of each round.  At the end
of the index there is no row, and no position behind it. -/
def rangeLoop {σ : Type} (idx : List Value) (body : σ → Value → σ)
    (itr endItr : Nat) (state : σ) : Except Fault σ :=
  if itr = endItr then .ok state
  else if inside : itr < idx.length then
    rangeLoop idx body (itr + 1) endItr (body state idx[itr])
  else .error .undefined
termination_by idx.length - itr

variable {T : IndexType} (members : List (Member T.Value)) {n : Nat}

/-- `function` is called on a row and may change its own state. -/
def walkRange {σ : Type} (container : MultiIndex T)
    (beginKey endKey : SearchKey members n) (function : σ → T.Value → σ)
    (state : σ) : Except Fault σ :=
  let idx := orderedIndex members container
  let beginItr := lowerBoundOf members idx beginKey
  let endItr := lowerBoundOf members idx endKey
  rangeLoop idx function beginItr endItr state

def sizeRange (container : MultiIndex T)
    (beginKey endKey : SearchKey members n) : Except Fault Nat :=
  let idx := orderedIndex members container
  let beginItr := lowerBoundOf members idx beginKey
  let endItr := lowerBoundOf members idx endKey
  rangeLoop idx (fun res _ => res + 1) beginItr endItr 0

/-- The rows whose keys are at least the first key and less than the second
one, in the order of the index. -/
def rowsInRange (container : MultiIndex T)
    (beginKey endKey : SearchKey members n) : List T.Value :=
  (orderedIndex members container).filter fun row =>
    ¬ RowBefore members row beginKey ∧ RowBefore members row endKey

end DbViewer

/-! ## The order of composite keys -/

namespace CompositeKey

theorem less_irrefl : ∀ (members : List (Member Value))
    (key : CompositeKey members), ¬ less members key key := by
  intro members
  induction members with
  | nil => exact fun _ => id
  | cons part rest inductionHypothesis =>
      rintro key (isLess | ⟨_, isLess⟩)
      · exact irrefl_of part.less key.1 isLess
      · exact inductionHypothesis key.2 isLess

theorem less_trans : ∀ {members : List (Member Value)}
    {left middle right : CompositeKey members}, less members left middle →
      less members middle right → less members left right := by
  intro members
  induction members with
  | nil => exact fun isLess => isLess.elim
  | cons part rest inductionHypothesis =>
      rintro left middle right (isLess | ⟨same, isLess⟩)
        (isLess' | ⟨same', isLess'⟩)
      · exact Or.inl (trans_of part.less isLess isLess')
      · exact Or.inl (same' ▸ isLess)
      · exact Or.inl (same ▸ isLess')
      · exact Or.inr ⟨same.trans same', inductionHypothesis isLess isLess'⟩

theorem less_trichotomous : ∀ {members : List (Member Value)}
    {left right : CompositeKey members}, ¬ less members left right →
      ¬ less members right left → left = right := by
  intro members
  induction members with
  | nil => exact fun _ _ => rfl
  | cons part rest inductionHypothesis =>
      intro left right notLess notGreater
      rcases trichotomous_of part.less left.1 right.1 with
        isLess | same | isGreater
      · exact absurd (Or.inl isLess) notLess
      · apply Prod.ext same
        apply inductionHypothesis
        · exact fun isLess => notLess (Or.inr ⟨same, isLess⟩)
        · exact fun isLess => notGreater (Or.inr ⟨same.symm, isLess⟩)
      · exact absurd (Or.inl isGreater) notGreater

instance (members : List (Member Value)) :
    IsStrictTotalOrder (CompositeKey members) (less members) where
  trichotomous := fun _ _ => less_trichotomous
  irrefl := less_irrefl members
  trans := fun _ _ _ => less_trans

/-- Rows that differ in the first members are in the order of these. -/
theorem less_of_less_take : ∀ {members : List (Member Value)} {n : Nat}
    {left right : Value},
    less (members.take n) (ofRow _ left) (ofRow _ right) →
      less members (ofRow members left) (ofRow members right) := by
  intro members
  induction members with
  | nil =>
      intro n left right isLess
      rw [List.take_nil] at isLess
      exact isLess
  | cons part rest inductionHypothesis =>
      intro n left right isLess
      cases n with
      | zero => exact isLess.elim
      | succ n =>
          rcases isLess with isLess | ⟨same, isLess⟩
          · exact Or.inl isLess
          · exact Or.inr ⟨same, inductionHypothesis isLess⟩

end CompositeKey

section Index

variable {T : IndexType} {members : List (Member T.Value)} {n : Nat}
  {container : MultiIndex T} {beginKey endKey : SearchKey members n}

theorem mem_orderedIndex {row : T.Value} :
    row ∈ orderedIndex members container ↔
      ∃ id : T.Id, container.rows[id]? = some row := by
  rw [orderedIndex, List.mem_insertionSort, List.mem_map]
  constructor
  · rintro ⟨entry, member, rfl⟩
    exact ⟨entry.1, (Maps.mem_map_toList _ entry.1 entry.2).mp member⟩
  · rintro ⟨id, found⟩
    exact ⟨(id, row), (Maps.mem_map_toList _ _ _).mpr found, rfl⟩

/-- The rows from a lower bound on are those that are not before the key. -/
theorem pairwise_rowBefore (container : MultiIndex T)
    (key : SearchKey members n) :
    (orderedIndex members container).Pairwise fun left right =>
      decide (¬ RowBefore members left key) = true →
        decide (¬ RowBefore members right key) = true := by
  have sorted : (orderedIndex members container).Pairwise fun left right =>
      ¬ CompositeKey.less members (CompositeKey.ofRow members right)
        (CompositeKey.ofRow members left) :=
    pairwise_not_less_insertionSort (CompositeKey.ofRow members) _
  apply sorted.imp
  intro left right notLess notBefore
  have leftNotBefore := of_decide_eq_true notBefore
  apply decide_eq_true
  intro rightBefore
  apply notLess
  apply CompositeKey.less_of_less_take (n := n)
  rcases trichotomous_of (CompositeKey.less (members.take n))
    (CompositeKey.ofRow (members.take n) left) key with isLess | same | isLess
  · exact absurd isLess leftNotBefore
  · rw [same]
    exact rightBefore
  · exact CompositeKey.less_trans rightBefore isLess

namespace DbViewer

variable {σ : Type} {idx : List T.Value} {body : σ → T.Value → σ}

/-- A loop whose second position is not before the first one. -/
theorem rangeLoop_reaches {middle back : List T.Value} :
    ∀ {front : List T.Value} (state : σ), idx = front ++ (middle ++ back) →
      rangeLoop idx body front.length (front.length + middle.length) state =
        .ok (middle.foldl body state) := by
  induction middle with
  | nil =>
      intro front state _
      rw [rangeLoop, if_pos (by simp only [List.length_nil, Nat.add_zero])]
      rfl
  | cons row rest inductionHypothesis =>
      intro front state isIdx
      have inside : front.length < idx.length := by
        rw [isIdx, List.length_append, List.cons_append, List.length_cons]
        omega
      have isRow : idx[front.length] = row := by
        apply Option.some.inj
        rw [← List.getElem?_eq_getElem inside, isIdx,
          List.getElem?_append_right (le_refl _), Nat.sub_self]
        rfl
      have isShifted : idx = (front ++ [row]) ++ (rest ++ back) := by
        rw [isIdx, List.append_assoc]
        rfl
      have shifted := inductionHypothesis (body state row) isShifted
      rw [List.length_append, List.length_singleton] at shifted
      have sameEnd : front.length + (row :: rest).length =
          front.length + 1 + rest.length := by
        rw [List.length_cons]
        omega
      rw [rangeLoop, if_neg (by rw [List.length_cons]; omega), dif_pos inside,
        isRow, sameEnd, shifted]
      rfl

/-- A loop whose second position is before the first one goes past the end of
the index. -/
theorem rangeLoop_past : ∀ (rounds : Nat) {itr endItr : Nat} (state : σ),
    idx.length - itr = rounds → endItr < itr →
      rangeLoop idx body itr endItr state = .error .undefined := by
  intro rounds
  induction rounds with
  | zero =>
      intro itr endItr state isRounds isPast
      rw [rangeLoop, if_neg (by omega), dif_neg (by omega)]
  | succ rounds inductionHypothesis =>
      intro itr endItr state isRounds isPast
      rw [rangeLoop, if_neg (by omega), dif_pos (by omega)]
      exact inductionHypothesis _ (by omega) (by omega)

theorem foldl_count {rows : List T.Value} {res : Nat} :
    rows.foldl (fun res _ => res + 1) res = res + rows.length := by
  induction rows generalizing res with
  | nil => rfl
  | cons row rest inductionHypothesis =>
      rw [List.foldl_cons, inductionHypothesis, List.length_cons]
      omega

/-- No row has a key from the second key up to the first one. -/
def Ascending (members : List (Member T.Value)) (container : MultiIndex T)
    (beginKey endKey : SearchKey members n) : Prop :=
  ∀ (id : T.Id) (row : T.Value), container.rows[id]? = some row →
    RowBefore members row beginKey → RowBefore members row endKey

/-- The rows before the range, the rows in it and the rows behind it. -/
theorem split_range (ascending : Ascending members container beginKey endKey) :
    ∃ front back, orderedIndex members container =
        front ++ (rowsInRange members container beginKey endKey ++ back) ∧
      lowerBoundOf members (orderedIndex members container) beginKey =
        front.length ∧
      lowerBoundOf members (orderedIndex members container) endKey =
        front.length +
          (rowsInRange members container beginKey endKey).length := by
  have beginRises := pairwise_rowBefore container beginKey
  have endRises := pairwise_rowBefore container endKey
  obtain ⟨front, isSplit, isBegin, _⟩ := split_at_findIdx _ beginRises
  obtain ⟨before, isEndSplit, isEnd, _⟩ := split_at_findIdx _ endRises
  obtain ⟨range, isRest, _, isRange⟩ := split_at_findIdx _
    (endRises.sublist (List.filter_sublist (p := fun row =>
      decide (¬ RowBefore members row beginKey))))
  have sameRange : range = rowsInRange members container beginKey endKey := by
    rw [isRange, List.filter_filter, rowsInRange]
    apply List.filter_congr
    intro row _
    simp only [decide_not, Bool.not_not, Bool.decide_and]
    exact Bool.and_comm _ _
  have sameBack : ((orderedIndex members container).filter fun row =>
      decide (¬ RowBefore members row beginKey)).filter (fun row =>
        decide (¬ RowBefore members row endKey)) =
      (orderedIndex members container).filter fun row =>
        decide (¬ RowBefore members row endKey) := by
    rw [List.filter_filter]
    apply List.filter_congr
    intro row member
    obtain ⟨id, found⟩ := mem_orderedIndex.mp member
    rw [← Bool.decide_and, decide_eq_decide]
    exact ⟨fun both => both.1, fun notBefore =>
      ⟨notBefore, fun before => notBefore (ascending id row found before)⟩⟩
  rw [sameRange, sameBack] at isRest
  rw [isRest] at isSplit
  refine ⟨front, _, isSplit, isBegin.symm, ?_⟩
  rw [lowerBoundOf, ← isEnd]
  have lengths := congrArg List.length (isSplit.symm.trans isEndSplit)
  simp only [List.length_append] at lengths
  omega

/-- A row between the keys in the wrong order turns the positions round. -/
theorem lowerBound_lt {id : T.Id} {row : T.Value}
    (found : container.rows[id]? = some row)
    (beforeBegin : RowBefore members row beginKey)
    (notBeforeEnd : ¬ RowBefore members row endKey) :
    lowerBoundOf members (orderedIndex members container) endKey <
      lowerBoundOf members (orderedIndex members container) beginKey := by
  obtain ⟨front, isSplit, isBegin, isFront⟩ :=
    split_at_findIdx _ (pairwise_rowBefore container beginKey)
  obtain ⟨before, isEndSplit, isEnd, isBefore⟩ :=
    split_at_findIdx _ (pairwise_rowBefore container endKey)
  rw [lowerBoundOf, lowerBoundOf, ← isBegin, ← isEnd]
  by_contra notLess
  have prefixed : front <+: before :=
    List.prefix_of_prefix_length_le ⟨_, isSplit.symm⟩ ⟨_, isEndSplit.symm⟩
      (not_lt.mp notLess)
  have inFront : row ∈ front := by
    rw [isFront, List.mem_filter]
    refine ⟨mem_orderedIndex.mpr ⟨id, found⟩, ?_⟩
    simp only [decide_not, Bool.not_not, decide_eq_true_eq]
    exact beforeBegin
  have inBefore := prefixed.subset inFront
  rw [isBefore, List.mem_filter] at inBefore
  simp only [decide_not, Bool.not_not, decide_eq_true_eq] at inBefore
  exact notBeforeEnd inBefore.2

/-- Both loops go past the end of the index. -/
theorem walkRange_past {id : T.Id} {row : T.Value}
    (found : container.rows[id]? = some row)
    (beforeBegin : RowBefore members row beginKey)
    (notBeforeEnd : ¬ RowBefore members row endKey)
    (function : σ → T.Value → σ) (state : σ) :
    walkRange members container beginKey endKey function state =
      .error .undefined :=
  rangeLoop_past _ state rfl (lowerBound_lt found beforeBegin notBeforeEnd)

theorem sizeRange_past {id : T.Id} {row : T.Value}
    (found : container.rows[id]? = some row)
    (beforeBegin : RowBefore members row beginKey)
    (notBeforeEnd : ¬ RowBefore members row endKey) :
    sizeRange members container beginKey endKey = .error .undefined :=
  rangeLoop_past _ 0 rfl (lowerBound_lt found beforeBegin notBeforeEnd)

end DbViewer

end Index

/-- `walk_range` calls the function on the rows in the range, each once and in
their order, and `size_range` counts these rows, exactly if no row has a key
from the second key up to the first one. -/
theorem range_walk_exact_iff {T : IndexType} (members : List (Member T.Value))
    (n : Nat) (container : MultiIndex T)
    (beginKey endKey : SearchKey members n) :
    ((∀ (σ : Type) (function : σ → T.Value → σ) (state : σ),
      DbViewer.walkRange members container beginKey endKey function state =
        .ok ((DbViewer.rowsInRange members container beginKey endKey).foldl
          function state)) ∧
      DbViewer.sizeRange members container beginKey endKey =
        .ok (DbViewer.rowsInRange members container beginKey endKey).length) ↔
      DbViewer.Ascending members container beginKey endKey := by
  constructor
  · rintro ⟨_, isSize⟩ id row found beforeBegin
    by_contra notBeforeEnd
    rw [DbViewer.sizeRange_past found beforeBegin notBeforeEnd] at isSize
    cases isSize
  · intro ascending
    obtain ⟨front, back, isSplit, isBegin, isEnd⟩ :=
      DbViewer.split_range ascending
    constructor
    · intro σ function state
      rw [DbViewer.walkRange, isBegin, isEnd]
      exact DbViewer.rangeLoop_reaches state isSplit
    · rw [DbViewer.sizeRange, isBegin, isEnd,
        DbViewer.rangeLoop_reaches 0 isSplit, DbViewer.foldl_count,
        Nat.zero_add]

/-! ## The primary keys of all tables -/

/-- The members of `by_scope_primary`. -/
def scopePrimaryMembers : List (Member KeyValueObject) :=
  [Member.ofNumber Int64.toInt (fun _ _ => Int64.toInt_inj.mp)
      KeyValueObject.tId,
    Member.ofNumber (fun key : UInt64 => (key.toNat : Int))
      (fun _ _ same => UInt64.toNat_inj.mp (Int.natCast_inj.mp same))
      KeyValueObject.primaryKey]

/-- The index is the one that the calls of `eos_db` go through. -/
theorem orderedIndex_scopePrimary (rows : MultiIndex keyValueIndex) :
    orderedIndex (T := keyValueIndex) scopePrimaryMembers rows =
      byScopePrimary rows := by
  have sameOrder : ∀ left right : KeyValueObject,
      CompositeKey.less scopePrimaryMembers
          (CompositeKey.ofRow scopePrimaryMembers left)
          (CompositeKey.ofRow scopePrimaryMembers right) ↔
        scopePrimaryLess left.scopePrimary right.scopePrimary := by
    intro left right
    rw [scopePrimaryLess_iff]
    change (_ ∨ _ ∧ (_ ∨ _ ∧ False)) ↔ _
    rw [and_false, or_false]
    apply or_congr Iff.rfl
    apply and_congr
    · exact Int64.toInt_inj.symm
    · exact Int.ofNat_lt
  rw [orderedIndex, byScopePrimary]
  congr! 3 with left right
  exact not_congr (sameOrder right left)

def scopePrimaryKey (tab : Int64) (id : UInt64) :
    SearchKey scopePrimaryMembers 2 :=
  (tab, id, ())

/-- The table alone. -/
def scopeKey (tab : Int64) : SearchKey scopePrimaryMembers 1 :=
  (tab, ())

/-- One row, with the primary key 7 in the table 5. -/
def oneKeyValue : MultiIndex keyValueIndex :=
  ((MultiIndex.empty keyValueIndex).emplace ⟨1, 5, 7, ⟨4⟩, [10]⟩).getD
    (MultiIndex.empty keyValueIndex)

/-- From the key 8 to the key 6 of the table, and from the table 6 to the
table 5, the loops go past the end. -/
theorem descending_range_goes_past :
    DbViewer.sizeRange (T := keyValueIndex) scopePrimaryMembers oneKeyValue
        (scopePrimaryKey 5 8) (scopePrimaryKey 5 6) = .error .undefined ∧
      DbViewer.walkRange (T := keyValueIndex) scopePrimaryMembers oneKeyValue
        (scopeKey 6) (scopeKey 5)
        (fun (seen : List KeyValueObject) row => seen ++ [row]) [] =
          .error .undefined := by
  have found : oneKeyValue.rows[(1 : Int64)]? =
      some ⟨1, 5, 7, ⟨4⟩, [10]⟩ := by
    decide +kernel
  constructor
  · apply DbViewer.sizeRange_past found
    · decide
    · decide
  · apply DbViewer.walkRange_past found
    · decide
    · decide

end StateDatabase
