import Mathlib

/-!
# Numbers made of bit fields

A number is divided into fields of given widths, the first field holding the
highest bits.  `pack` puts values into the fields and leaves the last fields 0
when there are too few values; `unpack` reads all fields.  Packing keeps the
order: the first field in which two numbers differ decides which is smaller.
-/

namespace BitFields

/-- The number with these values in its first fields. -/
def pack : List Nat → List Nat → Nat
  | _ :: widths, value :: values =>
      value * 2 ^ widths.sum + pack widths values
  | _, _ => 0

/-- The values of all fields. -/
def unpack : List Nat → Nat → List Nat
  | [], _ => []
  | width :: widths, number =>
      number / 2 ^ widths.sum % 2 ^ width :: unpack widths number

/-- There are not more values than fields, and each is below the bound of its
field. -/
def Fits : List Nat → List Nat → Prop
  | _, [] => True
  | [], _ :: _ => False
  | width :: widths, value :: values => value < 2 ^ width ∧ Fits widths values

@[simp]
theorem pack_nil_right (widths : List Nat) : pack widths [] = 0 := by
  cases widths <;> rfl

@[simp]
theorem unpack_length : ∀ (widths : List Nat) (number : Nat),
    (unpack widths number).length = widths.length
  | [], _ => rfl
  | _ :: widths, number => congrArg (· + 1) (unpack_length widths number)

theorem Fits.length_le : ∀ {widths values : List Nat}, Fits widths values →
    values.length ≤ widths.length
  | _, [], _ => Nat.zero_le _
  | [], _ :: _, fits => fits.elim
  | _ :: _, _ :: _, fits => Nat.succ_le_succ (length_le fits.2)

theorem unpack_fits : ∀ (widths : List Nat) (number : Nat),
    Fits widths (unpack widths number)
  | [], _ => trivial
  | width :: widths, number =>
      ⟨Nat.mod_lt _ (Nat.two_pow_pos width), unpack_fits widths number⟩

theorem Fits.getElem? : ∀ {widths values : List Nat} {i width value : Nat},
    Fits widths values → widths[i]? = some width → values[i]? = some value →
      value < 2 ^ width
  | _, [], _, _, _, _, _, isValue => by cases isValue
  | [], _ :: _, _, _, _, fits, _, _ => fits.elim
  | _ :: _, _ :: _, 0, _, _, fits, isWidth, isValue => by
      cases isWidth
      cases isValue
      exact fits.1
  | _ :: _, _ :: _, _ + 1, _, _, fits, isWidth, isValue =>
      getElem? fits.2 isWidth isValue

theorem fits_of_getElem? : ∀ {widths values : List Nat},
    values.length ≤ widths.length →
    (∀ i width value : Nat, widths[i]? = some width →
      values[i]? = some value → value < 2 ^ width) → Fits widths values
  | [], [], _, _ => trivial
  | _ :: _, [], _, _ => trivial
  | [], _ :: _, short, _ => (Nat.not_succ_le_zero _ short).elim
  | width :: _, value :: _, short, each =>
      ⟨each 0 width value rfl rfl,
        fits_of_getElem? (Nat.le_of_succ_le_succ short)
          fun i width value isWidth isValue =>
            each (i + 1) width value isWidth isValue⟩

/-- A common bound of all fields. -/
theorem Fits.lt_of_mem {widths values : List Nat} {bits value : Nat}
    (fits : Fits widths values) (narrow : ∀ width ∈ widths, width ≤ bits)
    (member : value ∈ values) : value < 2 ^ bits := by
  obtain ⟨i, inside, isValue⟩ := List.getElem_of_mem member
  have hasWidth : i < widths.length := Nat.lt_of_lt_of_le inside fits.length_le
  have small : value < 2 ^ widths[i] :=
    fits.getElem? (List.getElem?_eq_getElem hasWidth)
      (List.getElem?_eq_some_iff.mpr ⟨inside, isValue⟩)
  exact Nat.lt_of_lt_of_le small
    (Nat.pow_le_pow_right (by decide) (narrow _ (List.getElem_mem hasWidth)))

/-- A value at the front of more values fits as well. -/
theorem Fits.of_append {front : List Nat} : ∀ {widths back : List Nat},
    Fits widths (front ++ back) → Fits widths front := by
  induction front with
  | nil =>
      intro widths back fits
      cases widths <;> trivial
  | cons value values inductionHypothesis =>
      intro widths back fits
      cases widths with
      | nil => exact fits
      | cons width widths => exact ⟨fits.1, inductionHypothesis fits.2⟩

theorem pack_lt : ∀ {widths values : List Nat}, Fits widths values →
    pack widths values < 2 ^ widths.sum
  | widths, [], _ => by
      rw [pack_nil_right]
      exact Nat.two_pow_pos _
  | [], _ :: _, fits => fits.elim
  | width :: widths, value :: values, fits => by
      have rest := pack_lt fits.2
      have first : (value + 1) * 2 ^ widths.sum ≤
          2 ^ width * 2 ^ widths.sum :=
        Nat.mul_le_mul_right _ fits.1
      rw [Nat.succ_mul] at first
      rw [pack, List.sum_cons, Nat.pow_add]
      omega

/-! ## There and back -/

/-- Only the bits of the fields matter. -/
theorem unpack_mod : ∀ (widths : List Nat) (number : Nat),
    unpack widths (number % 2 ^ widths.sum) = unpack widths number := by
  have wider : ∀ (widths : List Nat) (number bits : Nat),
      widths.sum ≤ bits →
        unpack widths (number % 2 ^ bits) = unpack widths number := by
    intro widths
    induction widths with
    | nil =>
        intro number bits _
        rfl
    | cons width widths inductionHypothesis =>
        intro number bits enough
        rw [List.sum_cons] at enough
        have split : 2 ^ bits =
            2 ^ widths.sum * (2 ^ width * 2 ^ (bits - widths.sum - width)) := by
          rw [← Nat.pow_add, ← Nat.pow_add]
          congr 1
          omega
        rw [unpack, unpack, inductionHypothesis number bits (by omega), split,
          Nat.mod_mul_right_div_self,
          Nat.mod_mul_right_mod]
  intro widths number
  exact wider widths number widths.sum (Nat.le_refl _)

theorem pack_unpack : ∀ {widths : List Nat} {number : Nat},
    number < 2 ^ widths.sum → pack widths (unpack widths number) = number
  | [], number, small => by
      rw [List.sum_nil, Nat.pow_zero] at small
      rw [unpack, pack_nil_right]
      omega
  | width :: widths, number, small => by
      rw [List.sum_cons, Nat.pow_add, Nat.mul_comm] at small
      have high : number / 2 ^ widths.sum < 2 ^ width :=
        Nat.div_lt_of_lt_mul small
      have low : pack widths (unpack widths number) =
          number % 2 ^ widths.sum := by
        rw [← unpack_mod]
        exact pack_unpack (Nat.mod_lt _ (Nat.two_pow_pos _))
      rw [unpack, pack, Nat.mod_eq_of_lt high, low, Nat.mul_comm]
      exact Nat.div_add_mod number (2 ^ widths.sum)

theorem unpack_zero : ∀ widths : List Nat,
    unpack widths 0 = List.replicate widths.length 0
  | [] => rfl
  | width :: widths => by
      rw [unpack, unpack_zero widths, Nat.zero_div, Nat.zero_mod]
      rfl

/-- The fields hold the values, and 0 behind them. -/
theorem unpack_pack : ∀ {widths values : List Nat}, Fits widths values →
    unpack widths (pack widths values) =
      values ++ List.replicate (widths.length - values.length) 0
  | widths, [], _ => by
      rw [pack_nil_right, unpack_zero]
      rfl
  | [], _ :: _, fits => fits.elim
  | width :: widths, value :: values, fits => by
      have rest := pack_lt fits.2
      have first : (value * 2 ^ widths.sum + pack widths values) /
          2 ^ widths.sum = value := by
        rw [Nat.mul_comm, Nat.mul_add_div (Nat.two_pow_pos _),
          Nat.div_eq_of_lt rest, Nat.add_zero]
      have low : (value * 2 ^ widths.sum + pack widths values) %
          2 ^ widths.sum = pack widths values := by
        rw [Nat.mul_comm, Nat.mul_add_mod, Nat.mod_eq_of_lt rest]
      rw [pack, unpack, first, Nat.mod_eq_of_lt fits.1, ← unpack_mod, low,
        unpack_pack fits.2, List.length_cons, List.length_cons,
        Nat.add_sub_add_right]
      rfl

/-- Fields at the end are read from the lower bits. -/
theorem unpack_append : ∀ (front back : List Nat) (number : Nat),
    unpack (front ++ back) number =
      unpack front (number / 2 ^ back.sum) ++ unpack back number
  | [], _, _ => rfl
  | width :: front, back, number => by
      rw [List.cons_append, unpack, unpack, unpack_append front back number,
        List.sum_append, Nat.div_div_eq_div_mul, ← Nat.pow_add,
        Nat.add_comm back.sum]
      rfl

/-- Values that fill fields at the front only. -/
theorem pack_append_left : ∀ {front values : List Nat} (back : List Nat),
    values.length ≤ front.length →
      pack (front ++ back) values = pack front values * 2 ^ back.sum
  | front, [], back, _ => by
      rw [pack_nil_right, pack_nil_right, Nat.zero_mul]
  | [], _ :: _, _, short => (Nat.not_succ_le_zero _ short).elim
  | width :: front, value :: values, back, short => by
      have rest := pack_append_left back (Nat.le_of_succ_le_succ short)
      rw [List.cons_append, pack, pack, rest, List.sum_append, Nat.pow_add,
        Nat.add_mul, Nat.mul_assoc]

/-- Values that fill the fields at the front, and more behind them. -/
theorem pack_append : ∀ {front values : List Nat} (back more : List Nat),
    values.length = front.length →
      pack (front ++ back) (values ++ more) =
        pack front values * 2 ^ back.sum + pack back more
  | [], [], back, more, _ => by
      rw [pack_nil_right, Nat.zero_mul, Nat.zero_add]
      rfl
  | width :: front, value :: values, back, more, same => by
      have rest := pack_append back more (Nat.succ_inj.mp same)
      rw [List.cons_append, List.cons_append, pack, pack, rest,
        List.sum_append, Nat.pow_add, Nat.add_mul, Nat.mul_assoc,
        Nat.add_assoc]

/-! ## Order -/

/-- Zeros at the end say nothing. -/
theorem pack_append_zeros : ∀ (widths values : List Nat) (count : Nat),
    pack widths (values ++ List.replicate count 0) = pack widths values := by
  intro widths values count
  induction values generalizing widths count with
  | nil =>
      induction count generalizing widths with
      | zero => rfl
      | succ count inductionHypothesis =>
          cases widths with
          | nil => rfl
          | cons width widths =>
              have rest := inductionHypothesis widths
              rw [List.nil_append] at rest ⊢
              rw [List.replicate_succ, pack, rest, Nat.zero_mul, Nat.zero_add,
                pack_nil_right, pack_nil_right]
  | cons value values inductionHypothesis =>
      cases widths with
      | nil => rfl
      | cons width widths =>
          rw [List.cons_append, pack, pack, inductionHypothesis]

/-- Values that do not end in 0 leave a bit in their last field. -/
theorem pack_pos : ∀ {widths values : List Nat}, Fits widths values →
    values ≠ [] → values.getLast? ≠ some 0 → 0 < pack widths values
  | _, [], _, nonempty, _ => (nonempty rfl).elim
  | [], _ :: _, fits, _, _ => fits.elim
  | width :: widths, [value], _, _, last => by
      have positive : 0 < value :=
        Nat.pos_of_ne_zero fun isZero => last (by rw [isZero]; rfl)
      rw [pack, pack_nil_right, Nat.add_zero]
      exact Nat.mul_pos positive (Nat.two_pow_pos _)
  | width :: widths, value :: next :: values, fits, _, last => by
      have rest : 0 < pack widths (next :: values) := by
        apply pack_pos fits.2 (List.cons_ne_nil _ _)
        rwa [List.getLast?_cons_cons] at last
      rw [pack]
      omega

/-- The first difference decides; values that do not end in 0 come before
longer ones that start with them. -/
theorem pack_lt_pack_iff : ∀ {widths left right : List Nat},
    Fits widths left → Fits widths right →
    left.getLast? ≠ some 0 → right.getLast? ≠ some 0 →
      (pack widths left < pack widths right ↔ left < right)
  | widths, [], [], _, _, _, _ => by
      simp
  | widths, [], value :: values, _, fits, _, last => by
      rw [pack_nil_right]
      exact iff_of_true (pack_pos fits (List.cons_ne_nil _ _) last)
        (List.nil_lt_cons _ _)
  | widths, value :: values, [], _, _, _, _ => by
      rw [pack_nil_right]
      exact iff_of_false (Nat.not_lt_zero _) (List.not_lt_nil _)
  | [], _ :: _, _ :: _, fits, _, _, _ => fits.elim
  | width :: widths, left :: lefts, right :: rights, leftFits, rightFits,
      leftLast, rightLast => by
      have leftRest := pack_lt leftFits.2
      have rightRest := pack_lt rightFits.2
      rw [pack, pack, List.cons_lt_cons_iff]
      rcases Nat.lt_trichotomy left right with less | same | more
      · have above : (left + 1) * 2 ^ widths.sum ≤ right * 2 ^ widths.sum :=
          Nat.mul_le_mul_right _ less
        rw [Nat.succ_mul] at above
        exact iff_of_true (by omega) (Or.inl less)
      · have later : lefts.getLast? ≠ some 0 := by
          cases lefts with
          | nil => nofun
          | cons next values => rwa [List.getLast?_cons_cons] at leftLast
        have later' : rights.getLast? ≠ some 0 := by
          cases rights with
          | nil => nofun
          | cons next values => rwa [List.getLast?_cons_cons] at rightLast
        have rest := pack_lt_pack_iff leftFits.2 rightFits.2 later later'
        rw [same, Nat.add_lt_add_iff_left, rest]
        simp
      · have above : (right + 1) * 2 ^ widths.sum ≤ left * 2 ^ widths.sum :=
          Nat.mul_le_mul_right _ more
        rw [Nat.succ_mul] at above
        apply iff_of_false (by omega)
        rintro (less | ⟨same, _⟩)
        · omega
        · omega

/-- Packing is injective on values that do not end in 0. -/
theorem pack_inj {widths left right : List Nat} (leftFits : Fits widths left)
    (rightFits : Fits widths right) (leftLast : left.getLast? ≠ some 0)
    (rightLast : right.getLast? ≠ some 0)
    (same : pack widths left = pack widths right) : left = right := by
  have notLess := pack_lt_pack_iff leftFits rightFits leftLast rightLast
  have notGreater := pack_lt_pack_iff rightFits leftFits rightLast leftLast
  rcases lt_trichotomy left right with less | equal | greater
  · have := notLess.mpr less
    omega
  · exact equal
  · have := notGreater.mpr greater
    omega

/-- Every number is packed from values that do not end in 0. -/
theorem exists_trimmed {widths : List Nat} {number : Nat}
    (small : number < 2 ^ widths.sum) :
    ∃ values count, unpack widths number = values ++ List.replicate count 0 ∧
      Fits widths values ∧ values.getLast? ≠ some 0 ∧
      pack widths values = number := by
  have split : ∀ all : List Nat, ∃ values count,
      all = values ++ List.replicate count 0 ∧ values.getLast? ≠ some 0 := by
    intro all
    induction all using List.reverseRecOn with
    | nil => exact ⟨[], 0, rfl, nofun⟩
    | append_singleton front value inductionHypothesis =>
        by_cases isZero : value = 0
        · obtain ⟨values, count, isFront, last⟩ := inductionHypothesis
          refine ⟨values, count + 1, ?_, last⟩
          rw [isFront, isZero, List.append_assoc, List.replicate_succ']
        · refine ⟨front ++ [value], 0, (List.append_nil _).symm, ?_⟩
          rw [List.getLast?_concat]
          exact fun same => isZero (Option.some.inj same)
  obtain ⟨values, count, isAll, last⟩ := split (unpack widths number)
  have fits := unpack_fits widths number
  have packed := pack_unpack small
  rw [isAll] at fits packed
  rw [pack_append_zeros] at packed
  exact ⟨values, count, isAll, fits.of_append, last, packed⟩

end BitFields
