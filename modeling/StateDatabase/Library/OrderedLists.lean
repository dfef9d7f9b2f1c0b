import Mathlib

/-!
# Ranges of sorted lists

In a list that is sorted by a key, the items whose keys lie in a range are
neighbours.  A property that holds from some item on selects the end of the
list, and one that holds up to some item selects its beginning.  So a walk from
neighbour to neighbour that stops at the first item outside the range visits
what a filter selects.
-/

namespace OrderedLists

universe u v

variable {α : Type u} {κ : Type v} {items : List α}

/-- A property that holds from some item on. -/
theorem dropWhile_not_eq_filter {property : α → Bool}
    (rises : items.Pairwise fun left right =>
      property left = true → property right = true) :
    items.dropWhile (fun item => !property item) = items.filter property := by
  induction items with
  | nil => rfl
  | cons item rest inductionHypothesis =>
      rw [List.pairwise_cons] at rises
      cases holds : property item with
      | true =>
          have all : rest.filter property = rest :=
            List.filter_eq_self.mpr fun other member =>
              rises.1 other member holds
          simp [holds, all]
      | false =>
          simp [holds, inductionHypothesis rises.2]

/-- A property that holds up to some item. -/
theorem takeWhile_eq_filter {property : α → Bool}
    (falls : items.Pairwise fun left right =>
      property right = true → property left = true) :
    items.takeWhile property = items.filter property := by
  induction items with
  | nil => rfl
  | cons item rest inductionHypothesis =>
      rw [List.pairwise_cons] at falls
      cases holds : property item with
      | true =>
          simp [holds, inductionHypothesis falls.2]
      | false =>
          have none : rest.filter property = [] := by
            apply List.filter_eq_nil_iff.mpr
            intro other member isTrue
            rw [falls.1 other member isTrue] at holds
            cases holds
          simp [holds, none]

/-- The first position with a property, and what stands from there on. -/
theorem split_at_findIdx (property : α → Bool)
    (rises : items.Pairwise fun left right =>
      property left = true → property right = true) :
    ∃ front, items = front ++ items.filter property ∧
      front.length = items.findIdx property ∧
      front = items.filter fun item => !property item := by
  have first : items.takeWhile (fun item => !property item) =
      items.filter fun item => !property item := by
    apply takeWhile_eq_filter
    apply rises.imp
    intro left right rise
    cases holds : property left with
    | true => simp [rise holds]
    | false => simp
  have isLength := congrArg List.length first
  rw [List.takeWhile_eq_take_findIdx_not, List.length_take] at isLength
  simp only [Bool.not_not] at isLength
  change min (items.findIdx property) items.length = _ at isLength
  have bound : items.findIdx property ≤ items.length :=
    List.findIdx_le_length
  refine ⟨items.filter fun item => !property item, ?_, by omega, rfl⟩
  rw [← first, ← dropWhile_not_eq_filter rises]
  exact (List.takeWhile_append_dropWhile).symm

/-- The position of an item whose key no other item has. -/
theorem findIdx_of_key [DecidableEq κ] {key : α → κ} {front back : List α}
    {item : α} (distinct : ∀ other ∈ front, key other ≠ key item) :
    (front ++ item :: back).findIdx (fun other => key other = key item) =
      front.length := by
  induction front with
  | nil => simp [List.findIdx_cons]
  | cons first rest inductionHypothesis =>
      have notFirst : decide (key first = key item) = false :=
        decide_eq_false (distinct first List.mem_cons_self)
      rw [List.cons_append, List.findIdx_cons, notFirst, List.length_cons,
        inductionHypothesis fun other member =>
          distinct other (List.mem_cons_of_mem first member)]
      rfl

/-- Sorted by a key, no item is less than an item before it. -/
theorem pairwise_not_less_insertionSort {less : κ → κ → Prop}
    [DecidableRel less] [IsStrictTotalOrder κ less] (key : α → κ)
    (items : List α) :
    (items.insertionSort fun left right =>
      ¬ less (key right) (key left)).Pairwise
        fun left right => ¬ less (key right) (key left) := by
  have total : Std.Total fun left right : α => ¬ less (key right) (key left) :=
    ⟨fun left right => by
      by_cases rightLess : less (key right) (key left)
      · exact Or.inr (asymm rightLess)
      · exact Or.inl rightLess⟩
  have transitive :
      IsTrans α fun left right : α => ¬ less (key right) (key left) :=
    ⟨fun left middle right => by
      intro notLess notLess' rightLess
      rcases trichotomous_of less (key left) (key middle) with
        isLess | same | isLess
      · exact notLess' (trans_of less rightLess isLess)
      · rw [same] at rightLess
        exact notLess' rightLess
      · exact notLess isLess⟩
  exact List.pairwise_insertionSort
    (fun left right : α => ¬ less (key right) (key left)) items

/-- Sorted by a key that no two items share, every item is less than the items
behind it. -/
theorem pairwise_less_insertionSort {less : κ → κ → Prop} [DecidableRel less]
    [IsStrictTotalOrder κ less] (key : α → κ) (items : List α)
    (distinct : items.Pairwise fun left right => key left ≠ key right) :
    (items.insertionSort fun left right =>
      ¬ less (key right) (key left)).Pairwise
        fun left right => less (key left) (key right) := by
  have sorted : (items.insertionSort fun left right =>
      ¬ less (key right) (key left)).Pairwise
        fun left right => ¬ less (key right) (key left) :=
    pairwise_not_less_insertionSort key items
  have stillDistinct :=
    (List.perm_insertionSort
      (fun left right : α => ¬ less (key right) (key left)) items).symm.pairwise
        distinct Ne.symm
  apply sorted.imp₂ _ stillDistinct
  intro left right notLess different
  rcases trichotomous_of less (key left) (key right) with isLess | same | isLess
  · exact isLess
  · exact absurd same different
  · exact absurd isLess notLess

/-! ## Lexicographic order -/

/-- A function that keeps the order of the elements keeps that of the lists. -/
theorem lt_map_iff {α β : Type*} [LT α] [LT β] {f : α → β} :
    ∀ {left right : List α},
      (∀ a ∈ left, ∀ b ∈ right, f a < f b ↔ a < b) →
      (∀ a ∈ left, ∀ b ∈ right, f a = f b ↔ a = b) →
        (left.map f < right.map f ↔ left < right)
  | [], [], _, _ => iff_of_false (List.not_lt_nil _) (List.not_lt_nil _)
  | [], _ :: _, _, _ => iff_of_true (List.nil_lt_cons _ _) (List.nil_lt_cons _ _)
  | _ :: _, [], _, _ => iff_of_false (List.not_lt_nil _) (List.not_lt_nil _)
  | a :: left, b :: right, keepsLess, keepsEqual => by
      have rest := lt_map_iff
        (fun a member b member' => keepsLess a (List.mem_cons_of_mem _ member) b
          (List.mem_cons_of_mem _ member'))
        (fun a member b member' => keepsEqual a (List.mem_cons_of_mem _ member)
          b (List.mem_cons_of_mem _ member'))
      rw [List.map_cons, List.map_cons, List.cons_lt_cons_iff,
        List.cons_lt_cons_iff, rest,
        keepsLess a List.mem_cons_self b List.mem_cons_self,
        keepsEqual a List.mem_cons_self b List.mem_cons_self]

end OrderedLists
