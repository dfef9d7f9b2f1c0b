import Mathlib
import StateDatabase.Library.BitFields
import StateDatabase.Library.OrderedLists
import StateDatabase.ContractTables

/-!
# Names

A `name` is a text of at most 13 characters in 64 bits.  Each of the first
twelve characters has five bits, from the highest ones on, and the 13th has the
four lowest.  `string_to_uint64_t` reads the characters of a `std::string_view`
up to a zero and does not look at the length of the view.
-/

namespace StateDatabase

open BitFields OrderedLists

/-! ## The code -/

/-- A `std::string_view`: its characters and the memory behind the last one. -/
structure StringView where
  chars : Bytes
  following : Nat → UInt8

/-- Programs that read characters; the state lists the positions. -/
abbrev ReadM := StateM (List Nat)

theorem bind_run {α β : Type} (program : ReadM α) (continuation : α → ReadM β)
    (reads : List Nat) :
    (program >>= continuation) reads =
      continuation (program reads).1 (program reads).2 := rfl

namespace StringView

/-- What stands at a position, inside the view or behind it. -/
def charAt (str : StringView) (i : Nat) : UInt8 :=
  str.chars[i]?.getD (str.following (i - str.chars.length))

/-- `str[i]` -/
def read (str : StringView) (i : Nat) : ReadM UInt8 :=
  fun reads => (str.charAt i, reads ++ [i])

/-- The view of a C string or of a `std::string` without zeros. -/
structure Terminated (str : StringView) : Prop where
  chars : 0 ∉ str.chars
  following : str.following 0 = 0

end StringView

def charToSymbol (c : UInt8) : UInt64 :=
  if 'a'.toUInt8 ≤ c ∧ c ≤ 'z'.toUInt8 then
    (c - 'a'.toUInt8).toUInt64 + 6
  else if '1'.toUInt8 ≤ c ∧ c ≤ '5'.toUInt8 then
    (c - '1'.toUInt8).toUInt64 + 1
  else
    0

/-- `for (; str[i] && i < 12; ++i)`.  `remaining` is `12 - i`; at 0 the
character is read before the bound ends the loop. -/
def symbolLoop (str : StringView) : Nat → Nat → UInt64 → ReadM (UInt64 × Nat)
  | 0, i, n => do
      let _ ← str.read i
      return (n, i)
  | remaining + 1, i, n => do
      let c ← str.read i
      if c = 0 then
        return (n, i)
      symbolLoop str remaining (i + 1)
        (n ||| (charToSymbol c &&& 0x1f) <<< UInt64.ofNat (64 - 5 * (i + 1)))

/-- `string_to_uint64_t` -/
def stringToUint64 (str : StringView) : ReadM UInt64 := do
  let (n, i) ← symbolLoop str 12 0 0
  if i = 12 then
    let c ← str.read 12
    return n ||| (charToSymbol c &&& 0x0F)
  return n

def charmap : Bytes :=
  ".12345abcdefghijklmnopqrstuvwxyz".toList.map Char.toUInt8

def dot : UInt8 := '.'.toUInt8

namespace Name

/-- `for (uint32_t i = 0; i <= 12; ++i)`; `remaining` is `13 - i`. -/
def toStringLoop : Nat → Nat → UInt64 → Bytes → Bytes
  | 0, _, _, str => str
  | remaining + 1, i, tmp, str =>
      let c := charmap.getD (tmp &&& if i = 0 then 0x0f else 0x1f).toNat 0
      toStringLoop remaining (i + 1) (tmp >>> if i = 0 then 4 else 5)
        (str.set (12 - i) c)

/-- `to_string`; the dots at the end are trimmed. -/
def toString (n : Name) : Bytes :=
  (toStringLoop 13 0 n.value (List.replicate 13 dot)).rdropWhile (· = dot)

/-- `set`.  The comparison with the view stays inside it. -/
def set (ndebug : Bool) (str : StringView) : ReadM (Except Fault Name) := do
  if ndebug = false ∧ 13 < str.chars.length then
    return .error (.assertion "Name is longer than 13 characters")
  let value ← stringToUint64 str
  if ndebug = false ∧ toString ⟨value⟩ ≠ str.chars then
    return .error (.assertion "Name not properly normalized ")
  return .ok ⟨value⟩

instance : LT Name where
  lt left right := left.value < right.value

end Name

/-! ## The grammar -/

/-- '.', '1' to '5' and 'a' to 'z' -/
def IsNameChar (c : UInt8) : Prop :=
  c = '.'.toUInt8 ∨ '1'.toUInt8 ≤ c ∧ c ≤ '5'.toUInt8 ∨
    'a'.toUInt8 ≤ c ∧ c ≤ 'z'.toUInt8

/-- '.', '1' to '5' and 'a' to 'j' -/
def IsLastNameChar (c : UInt8) : Prop :=
  c = '.'.toUInt8 ∨ '1'.toUInt8 ≤ c ∧ c ≤ '5'.toUInt8 ∨
    'a'.toUInt8 ≤ c ∧ c ≤ 'j'.toUInt8

instance (c : UInt8) : Decidable (IsNameChar c) := by
  unfold IsNameChar
  infer_instance

instance (c : UInt8) : Decidable (IsLastNameChar c) := by
  unfold IsLastNameChar
  infer_instance

/-- The texts of names. -/
structure IsNameText (text : Bytes) : Prop where
  short : text.length ≤ 13
  chars : ∀ c ∈ text, IsNameChar c
  last : ∀ c, text[12]? = some c → IsLastNameChar c
  trimmed : text.getLast? ≠ some '.'.toUInt8

/-! ## Characters and symbols -/

/-- The symbol of a character as a number. -/
def symbol (c : UInt8) : Nat :=
  (charToSymbol c).toNat

/-- The character of a symbol. -/
def charOf (value : Nat) : UInt8 :=
  charmap.getD value 0

theorem symbol_lt (c : UInt8) : symbol c < 32 := by
  revert c
  decide +kernel

theorem symbol_charOf {value : Nat} (small : value < 32) :
    symbol (charOf value) = value := by
  revert value
  decide

theorem charOf_isNameChar {value : Nat} (small : value < 32) :
    IsNameChar (charOf value) := by
  revert value
  decide

theorem charOf_isLastNameChar {value : Nat} (small : value < 16) :
    IsLastNameChar (charOf value) := by
  revert value
  decide

theorem charOf_symbol {c : UInt8} (isName : IsNameChar c) :
    charOf (symbol c) = c := by
  revert c
  decide +kernel

theorem symbol_lt_of_isLastNameChar {c : UInt8} (isLast : IsLastNameChar c) :
    symbol c < 16 := by
  revert c
  decide +kernel

theorem charOf_eq_dot_iff {value : Nat} (small : value < 32) :
    charOf value = dot ↔ value = 0 := by
  revert value
  decide

/-- Symbols are ordered as their characters are. -/
theorem charOf_lt_charOf_iff {left right : Nat} (leftSmall : left < 32)
    (rightSmall : right < 32) : charOf left < charOf right ↔ left < right := by
  have all : ∀ left < 32, ∀ right < 32,
      (charOf left < charOf right ↔ left < right) := by
    decide
  exact all left leftSmall right rightSmall

/-! ## Encoding -/

/-- Fields of five bits and one of four. -/
def fieldWidths (count : Nat) : List Nat :=
  List.replicate count 5 ++ [4]

theorem fieldWidths_succ (count : Nat) :
    fieldWidths (count + 1) = 5 :: fieldWidths count := rfl

theorem fieldWidths_sum (count : Nat) :
    (fieldWidths count).sum = 5 * count + 4 := by
  rw [fieldWidths, List.sum_append, List.sum_replicate, smul_eq_mul,
    List.sum_singleton, Nat.mul_comm]

/-- A value is put into bits that are all 0. -/
theorem toNat_or_shiftLeft {n s : UInt64} {bits : Nat} (small : s.toNat < 32)
    (clear : n.toNat % 2 ^ (bits + 5) = 0) (inRange : bits ≤ 59) :
    (n ||| (s &&& 0x1f) <<< UInt64.ofNat bits).toNat =
      n.toNat + s.toNat * 2 ^ bits := by
  have masked : (s &&& 0x1f).toNat = s.toNat := by
    rw [UInt64.toNat_and]
    exact (Nat.and_two_pow_sub_one_eq_mod s.toNat 5).trans
      (Nat.mod_eq_of_lt small)
  have amount : (UInt64.ofNat bits).toNat % 64 = bits := by
    rw [UInt64.toNat_ofNat']
    omega
  have below : s.toNat * 2 ^ bits < 2 ^ (bits + 5) := by
    rw [Nat.pow_add, Nat.mul_comm (2 ^ bits)]
    exact Nat.mul_lt_mul_of_pos_right small (Nat.two_pow_pos bits)
  have wraps : s.toNat * 2 ^ bits < 2 ^ 64 :=
    Nat.lt_of_lt_of_le below (Nat.pow_le_pow_right (by decide) (by omega))
  obtain ⟨high, isHigh⟩ := Nat.dvd_of_mod_eq_zero clear
  rw [UInt64.toNat_or, UInt64.toNat_shiftLeft, masked, amount,
    Nat.shiftLeft_eq, Nat.mod_eq_of_lt wraps, isHigh]
  exact (Nat.two_pow_add_eq_or_of_lt below high).symm

/-- The lowest four bits get the last value. -/
theorem toNat_or_low {n s : UInt64} (clear : n.toNat % 2 ^ 4 = 0) :
    (n ||| (s &&& 0x0F)).toNat = n.toNat + s.toNat % 16 := by
  have masked : (s &&& 0x0F).toNat = s.toNat % 16 := by
    rw [UInt64.toNat_and]
    exact Nat.and_two_pow_sub_one_eq_mod s.toNat 4
  obtain ⟨high, isHigh⟩ := Nat.dvd_of_mod_eq_zero clear
  rw [UInt64.toNat_or, masked, isHigh]
  exact (Nat.two_pow_add_eq_or_of_lt (Nat.mod_lt _ (by decide)) high).symm

/-- The characters that the loop encodes: up to a zero, and not more than
`remaining`. -/
def textFrom (str : StringView) : Nat → Nat → Bytes
  | 0, _ => []
  | remaining + 1, i =>
      if str.charAt i = 0 then []
      else str.charAt i :: textFrom str remaining (i + 1)

theorem textFrom_length_le (str : StringView) : ∀ remaining i : Nat,
    (textFrom str remaining i).length ≤ remaining
  | 0, _ => Nat.le_refl 0
  | remaining + 1, i => by
      rw [textFrom]
      split
      · exact Nat.zero_le _
      · exact Nat.succ_le_succ (textFrom_length_le str remaining (i + 1))

/-- The loop packs the characters and reads one position more. -/
theorem symbolLoop_apply (str : StringView) :
    ∀ (remaining i : Nat) (n : UInt64) (reads : List Nat),
      i + remaining = 12 → n.toNat % 2 ^ (5 * remaining + 4) = 0 →
        ∃ value : UInt64,
          symbolLoop str remaining i n reads =
            ((value, i + (textFrom str remaining i).length),
              reads ++ List.range' i ((textFrom str remaining i).length + 1)) ∧
          value.toNat = n.toNat +
            pack (fieldWidths remaining)
              ((textFrom str remaining i).map symbol)
  | 0, i, n, reads, _, _ => by
      refine ⟨n, rfl, ?_⟩
      rw [textFrom, List.map_nil, pack_nil_right, Nat.add_zero]
  | remaining + 1, i, n, reads, isTwelve, clear => by
      rw [textFrom]
      by_cases isZero : str.charAt i = 0
      · refine ⟨n, ?_, ?_⟩
        · rw [if_pos isZero]
          change (if str.charAt i = 0 then _ else _ :
            ReadM (UInt64 × Nat)) (reads ++ [i]) = _
          rw [if_pos isZero]
          rfl
        · rw [if_pos isZero, List.map_nil, pack_nil_right, Nat.add_zero]
      · have bits : 64 - 5 * (i + 1) = 5 * remaining + 4 := by omega
        have added := toNat_or_shiftLeft (symbol_lt (str.charAt i))
          (show n.toNat % 2 ^ (5 * remaining + 4 + 5) = 0 from clear)
          (by omega)
        rw [← bits] at added
        have stillClear : (n ||| (charToSymbol (str.charAt i) &&& 0x1f) <<<
            UInt64.ofNat (64 - 5 * (i + 1))).toNat %
              2 ^ (5 * remaining + 4) = 0 := by
          rw [added, bits, Nat.add_mul_mod_self_right]
          apply Nat.mod_eq_zero_of_dvd
          exact Nat.dvd_trans (Nat.pow_dvd_pow 2 (by omega))
            (Nat.dvd_of_mod_eq_zero clear)
        obtain ⟨value, loops, isValue⟩ := symbolLoop_apply str remaining (i + 1)
          _ (reads ++ [i]) (by omega) stillClear
        refine ⟨value, ?_, ?_⟩
        · rw [if_neg isZero]
          change (if str.charAt i = 0 then _ else _ :
            ReadM (UInt64 × Nat)) (reads ++ [i]) = _
          rw [if_neg isZero, loops, List.length_cons, List.range'_succ,
            List.append_assoc, Nat.add_right_comm, Nat.add_assoc]
          rfl
        · rw [if_neg isZero, isValue, added, bits, List.map_cons,
            fieldWidths_succ, pack, fieldWidths_sum, Nat.add_assoc]
          rfl

/-- The values that `string_to_uint64_t` puts into the fields. -/
def fieldsOf (str : StringView) : List Nat :=
  (textFrom str 12 0).map symbol ++
    if (textFrom str 12 0).length = 12 then [symbol (str.charAt 12) % 16]
    else []

/-- The positions that `string_to_uint64_t` reads. -/
def readsOf (str : StringView) : List Nat :=
  List.range' 0 ((textFrom str 12 0).length + 1) ++
    if (textFrom str 12 0).length = 12 then [12] else []

theorem stringToUint64_apply (str : StringView) (reads : List Nat) :
    ∃ value : UInt64,
      stringToUint64 str reads = (value, reads ++ readsOf str) ∧
      value.toNat = pack (fieldWidths 12) (fieldsOf str) := by
  obtain ⟨value, loops, isValue⟩ :=
    symbolLoop_apply str 12 0 0 reads rfl (by decide)
  rw [Nat.zero_add] at loops
  have isPacked : value.toNat =
      pack (fieldWidths 12) ((textFrom str 12 0).map symbol) := by
    rw [isValue, UInt64.toNat_zero, Nat.zero_add]
  have short : ((textFrom str 12 0).map symbol).length ≤
      (List.replicate 12 5).length := by
    rw [List.length_map]
    exact textFrom_length_le str 12 0
  have program : stringToUint64 str reads =
      (if (textFrom str 12 0).length = 12 then do
        let c ← str.read 12
        return value ||| (charToSymbol c &&& 0x0F)
      else return value : ReadM UInt64)
        (reads ++ List.range' 0 ((textFrom str 12 0).length + 1)) := by
    change (match symbolLoop str 12 0 0 reads with
      | ((n, i), later) => (if i = 12 then do
          let c ← str.read 12
          return n ||| (charToSymbol c &&& 0x0F)
        else return n : ReadM UInt64) later) = _
    rw [loops]
  rw [program, fieldsOf, readsOf]
  by_cases isTwelve : (textFrom str 12 0).length = 12
  · rw [if_pos isTwelve, if_pos isTwelve, if_pos isTwelve]
    have clear : value.toNat % 2 ^ 4 = 0 := by
      rw [isPacked, fieldWidths, pack_append_left [4] short]
      exact Nat.mul_mod_left _ _
    refine ⟨_, by rw [← List.append_assoc]; rfl, ?_⟩
    rw [toNat_or_low clear, isPacked, fieldWidths, pack_append_left [4] short,
      pack_append]
    · rw [pack, pack_nil_right, List.sum_nil, Nat.pow_zero, Nat.mul_one,
        Nat.add_zero]
      rfl
    · rw [List.length_map, isTwelve, List.length_replicate]
  · rw [if_neg isTwelve, if_neg isTwelve, if_neg isTwelve, List.append_nil,
      List.append_nil]
    exact ⟨value, rfl, isPacked⟩

/-! ## Decoding -/

theorem toStringLoop_apply : ∀ (remaining i : Nat) (tmp : UInt64) (str : Bytes),
    i ≠ 0 → i + remaining = 13 → str.length = 13 →
      Name.toStringLoop remaining i tmp str =
        (unpack (List.replicate remaining 5) tmp.toNat).map charOf ++
          str.drop remaining
  | 0, _, _, _, _, _, _ => rfl
  | remaining + 1, i, tmp, str, notFirst, isThirteen, long => by
      have position : 12 - i = remaining := by omega
      have masked : (tmp &&& 0x1f).toNat = tmp.toNat % 2 ^ 5 := by
        rw [UInt64.toNat_and]
        exact Nat.and_two_pow_sub_one_eq_mod tmp.toNat 5
      have shifted : (tmp >>> 5).toNat = tmp.toNat / 2 ^ 5 := by
        rw [UInt64.toNat_shiftRight, Nat.shiftRight_eq_div_pow]
        rfl
      have placed : (str.set remaining (charOf (tmp.toNat % 2 ^ 5))).drop
          remaining = charOf (tmp.toNat % 2 ^ 5) :: str.drop (remaining + 1) := by
        rw [List.set_eq_take_append_cons_drop, if_pos (by omega),
          List.drop_left' (by rw [List.length_take]; omega)]
      have lowest : unpack [5] tmp.toNat = [tmp.toNat % 2 ^ 5] := by
        rw [unpack, List.sum_nil, Nat.pow_zero, Nat.div_one]
        rfl
      have loops := toStringLoop_apply remaining (i + 1) (tmp >>> 5)
        (str.set remaining (charOf (tmp.toNat % 2 ^ 5))) (by omega) (by omega)
        (by rw [List.length_set, long])
      rw [placed, shifted] at loops
      rw [Name.toStringLoop, if_neg notFirst, if_neg notFirst, position,
        masked, List.replicate_succ', unpack_append, lowest, List.sum_singleton,
        List.map_append, List.append_assoc]
      exact loops

/-- Only the dots at the end are trimmed. -/
theorem trim_append_dots {text : Bytes} (trimmed : text.getLast? ≠ some dot)
    (count : Nat) :
    (text ++ List.replicate count dot).rdropWhile (· = dot) = text := by
  induction count with
  | zero =>
      rw [List.replicate_zero, List.append_nil, List.rdropWhile_eq_self_iff]
      intro nonempty isDot
      apply trimmed
      rw [List.getLast?_eq_some_getLast nonempty, of_decide_eq_true isDot]
  | succ count inductionHypothesis =>
      rw [List.replicate_succ', ← List.append_assoc, List.rdropWhile_concat,
        if_pos (decide_eq_true rfl)]
      exact inductionHypothesis

section Values

variable {values : List Nat}

theorem value_lt (fits : Fits (fieldWidths 12) values) {value : Nat}
    (member : value ∈ values) : value < 32 := by
  have narrow : ∀ width ∈ fieldWidths 12, width ≤ 5 := by decide
  exact fits.lt_of_mem narrow member

theorem lastChar_ne_dot (fits : Fits (fieldWidths 12) values)
    (last : values.getLast? ≠ some 0) :
    (values.map charOf).getLast? ≠ some dot := by
  rw [List.getLast?_map]
  intro isDot
  obtain ⟨value, isLast, isChar⟩ := Option.map_eq_some_iff.mp isDot
  apply last
  rw [isLast, (charOf_eq_dot_iff
    (value_lt fits (List.mem_of_getLast? isLast))).mp isChar]

/-- Values without zeros at the end spell the text of a name. -/
theorem isNameText_map_charOf (fits : Fits (fieldWidths 12) values)
    (last : values.getLast? ≠ some 0) : IsNameText (values.map charOf) where
  short := by
    rw [List.length_map]
    exact fits.length_le
  chars := by
    intro c member
    obtain ⟨value, isValue, rfl⟩ := List.mem_map.mp member
    exact charOf_isNameChar (value_lt fits isValue)
  last := by
    intro c isChar
    rw [List.getElem?_map] at isChar
    obtain ⟨value, isValue, rfl⟩ := Option.map_eq_some_iff.mp isChar
    exact charOf_isLastNameChar (fits.getElem? rfl isValue)
  trimmed := lastChar_ne_dot fits last

theorem symbols_of_chars (fits : Fits (fieldWidths 12) values) :
    (values.map charOf).map symbol = values := by
  rw [List.map_map]
  conv => rhs; rw [← List.map_id values]
  apply List.map_congr_left
  intro value member
  exact symbol_charOf (value_lt fits member)

end Values

/-- The fields of a name become characters. -/
theorem toStringLoop_eq (value : UInt64) :
    Name.toStringLoop 13 0 value (List.replicate 13 dot) =
      (unpack (fieldWidths 12) value.toNat).map charOf := by
  have masked : (value &&& 0x0f).toNat = value.toNat % 2 ^ 4 := by
    rw [UInt64.toNat_and]
    exact Nat.and_two_pow_sub_one_eq_mod value.toNat 4
  have shifted : (value >>> 4).toNat = value.toNat / 2 ^ 4 := by
    rw [UInt64.toNat_shiftRight, Nat.shiftRight_eq_div_pow]
    rfl
  have lowest : unpack [4] value.toNat = [value.toNat % 2 ^ 4] := by
    rw [unpack, List.sum_nil, Nat.pow_zero, Nat.div_one]
    rfl
  have loops := toStringLoop_apply 12 1 (value >>> 4)
    ((List.replicate 13 dot).set 12 (charOf (value.toNat % 2 ^ 4)))
    Nat.one_ne_zero rfl rfl
  rw [shifted] at loops
  rw [Name.toStringLoop, if_pos rfl, if_pos rfl, masked, fieldWidths,
    unpack_append, lowest, List.sum_singleton, List.map_append]
  exact loops

/-- The text of a name, as the values of its fields without zeros at the
end. -/
theorem Name.toString_eq (n : Name) :
    ∃ values, Fits (fieldWidths 12) values ∧ values.getLast? ≠ some 0 ∧
      pack (fieldWidths 12) values = n.value.toNat ∧
      n.toString = values.map charOf := by
  have small : n.value.toNat < 2 ^ (fieldWidths 12).sum := by
    rw [fieldWidths_sum]
    exact n.value.toNat_lt
  obtain ⟨values, count, isAll, fits, last, packed⟩ := exists_trimmed small
  refine ⟨values, fits, last, packed, ?_⟩
  have dots : (List.replicate count 0).map charOf = List.replicate count dot := by
    rw [List.map_replicate]
    rfl
  rw [Name.toString, toStringLoop_eq, isAll, List.map_append, dots]
  exact trim_append_dots (lastChar_ne_dot fits last) count

/-! ## Texts of names -/

section Texts

variable {text : Bytes}

theorem IsNameText.chars_of_symbols (isName : IsNameText text) :
    (text.map symbol).map charOf = text := by
  rw [List.map_map]
  conv => rhs; rw [← List.map_id text]
  apply List.map_congr_left
  intro c member
  exact charOf_symbol (isName.chars c member)

theorem IsNameText.last_ne_zero (isName : IsNameText text) :
    (text.map symbol).getLast? ≠ some 0 := by
  rw [List.getLast?_map]
  intro isZero
  obtain ⟨c, isLast, isSymbol⟩ := Option.map_eq_some_iff.mp isZero
  apply isName.trimmed
  have isDot := charOf_symbol (isName.chars c (List.mem_of_getLast? isLast))
  rw [isSymbol] at isDot
  rw [isLast, ← isDot]
  decide

/-- The symbols of a name fit, also the 13th. -/
theorem IsNameText.fits (isName : IsNameText text) :
    Fits (fieldWidths 12) (text.map symbol) := by
  have widths : ∀ i < 13, (fieldWidths 12)[i]? =
      some (if i = 12 then 4 else 5) := by
    decide
  apply fits_of_getElem?
  · rw [List.length_map]
    exact isName.short
  · intro i width value isWidth isValue
    rw [List.getElem?_map] at isValue
    obtain ⟨c, isChar, rfl⟩ := Option.map_eq_some_iff.mp isValue
    have inside : i < 13 := Nat.lt_of_lt_of_le
      (List.getElem?_eq_some_iff.mp isChar).1 isName.short
    rw [widths i inside, Option.some.injEq] at isWidth
    rw [← isWidth]
    by_cases isLast : i = 12
    · rw [isLast] at isChar
      rw [if_pos isLast]
      exact symbol_lt_of_isLastNameChar (isName.last c isChar)
    · rw [if_neg isLast]
      exact symbol_lt c

end Texts

section Terminated

variable {str : StringView}

theorem StringView.charAt_of_lt {i : Nat} (inside : i < str.chars.length) :
    str.charAt i = str.chars[i] := by
  rw [charAt, List.getElem?_eq_getElem inside, Option.getD_some]

theorem StringView.Terminated.charAt_length (terminated : str.Terminated) :
    str.charAt str.chars.length = 0 := by
  rw [charAt, List.getElem?_eq_none (Nat.le_refl _), Option.getD_none,
    Nat.sub_self]
  exact terminated.following

/-- The loop encodes the characters of a string that ends in a zero. -/
theorem StringView.Terminated.textFrom_eq (terminated : str.Terminated) :
    ∀ remaining i : Nat, i ≤ str.chars.length →
      textFrom str remaining i = (str.chars.drop i).take remaining
  | 0, _, _ => rfl
  | remaining + 1, i, upTo => by
      rw [textFrom]
      rcases Nat.lt_or_eq_of_le upTo with inside | isEnd
      · have nonzero : str.charAt i ≠ 0 := by
          rw [charAt_of_lt inside]
          exact fun isZero =>
            terminated.chars (isZero ▸ List.getElem_mem inside)
        rw [if_neg nonzero, textFrom_eq terminated remaining (i + 1) inside,
          charAt_of_lt inside, List.drop_eq_getElem_cons inside,
          List.take_succ_cons]
      · rw [isEnd, if_pos terminated.charAt_length, List.drop_length]
        rfl

/-- The text of a name is packed symbol by symbol. -/
theorem IsNameText.pack_fieldsOf (isName : IsNameText str.chars)
    (terminated : str.Terminated) :
    pack (fieldWidths 12) (fieldsOf str) =
      pack (fieldWidths 12) (str.chars.map symbol) := by
  have isText : textFrom str 12 0 = str.chars.take 12 :=
    terminated.textFrom_eq 12 0 (Nat.zero_le _)
  rw [fieldsOf, isText, List.length_take]
  rcases Nat.lt_trichotomy str.chars.length 12 with shorter | same | longer
  · rw [if_neg (by omega), List.take_of_length_le (by omega), List.append_nil]
  · -- the zero behind the text is read as a 13th character
    have isZero : str.charAt 12 = 0 := by
      rw [← same]
      exact terminated.charAt_length
    rw [if_pos (by omega), List.take_of_length_le (by omega), isZero]
    exact pack_append_zeros _ _ 1
  · have long : str.chars.length = 13 := by
      have short := isName.short
      omega
    have isLast : str.chars[12]? = some str.chars[12] :=
      List.getElem?_eq_getElem longer
    have small := symbol_lt_of_isLastNameChar (isName.last _ isLast)
    have split : str.chars = str.chars.take 12 ++ [str.chars[12]] := by
      rw [← List.take_succ_eq_append_getElem longer,
        List.take_of_length_le (by omega)]
    rw [if_pos (by omega), StringView.charAt_of_lt longer,
      Nat.mod_eq_of_lt small]
    conv => rhs; rw [split, List.map_append]
    rfl

end Terminated

/-! ## The codec -/

/-- What `set` does with the value of the view. -/
theorem Name.set_apply (ndebug : Bool) (str : StringView) (reads : List Nat) :
    (Name.set ndebug str reads).1 =
      if ndebug = false ∧ 13 < str.chars.length then
        .error (.assertion "Name is longer than 13 characters")
      else if ndebug = false ∧
          Name.toString ⟨(stringToUint64 str reads).1⟩ ≠ str.chars then
        .error (.assertion "Name not properly normalized ")
      else .ok ⟨(stringToUint64 str reads).1⟩ := by
  unfold Name.set
  by_cases long : ndebug = false ∧ 13 < str.chars.length
  · rw [if_pos long, if_pos long]
    rfl
  · rw [if_neg long, if_neg long]
    by_cases differs : ndebug = false ∧
        toString ⟨(stringToUint64 str reads).1⟩ ≠ str.chars
    · rw [bind_run, if_pos differs, if_pos differs]
      rfl
    · rw [bind_run, if_neg differs, if_neg differs]
      rfl

/-- `set` accepts a view of at most 13 characters that is the text of its
value. -/
theorem Name.set_ok_iff {str : StringView} {reads : List Nat} {n : Name} :
    (Name.set false str reads).1 = .ok n ↔
      str.chars.length ≤ 13 ∧ n.value = (stringToUint64 str reads).1 ∧
        n.toString = str.chars := by
  rw [Name.set_apply]
  by_cases long : 13 < str.chars.length
  · rw [if_pos ⟨rfl, long⟩]
    exact iff_of_false nofun fun holds => by omega
  · rw [if_neg fun holds => long holds.2]
    by_cases same : toString ⟨(stringToUint64 str reads).1⟩ = str.chars
    · rw [if_neg fun holds => holds.2 same, Except.ok.injEq]
      constructor
      · rintro rfl
        exact ⟨by omega, rfl, same⟩
      · rintro ⟨_, isValue, _⟩
        rw [← isValue]
    · rw [if_pos ⟨rfl, same⟩]
      apply iff_of_false nofun
      rintro ⟨_, isValue, isText⟩
      apply same
      rw [← isValue]
      exact isText

theorem Name.isNameText_toString (n : Name) : IsNameText n.toString := by
  obtain ⟨values, fits, last, _, isText⟩ := n.toString_eq
  rw [isText]
  exact isNameText_map_charOf fits last

/-- The value of a string that is the text of a name. -/
theorem IsNameText.encoded {str : StringView} (isName : IsNameText str.chars)
    (terminated : str.Terminated) (reads : List Nat) :
    (stringToUint64 str reads).1.toNat =
      pack (fieldWidths 12) (str.chars.map symbol) := by
  obtain ⟨value, encodes, isValue⟩ := stringToUint64_apply str reads
  rw [encodes, isValue, isName.pack_fieldsOf terminated]

/-- That value has this text. -/
theorem IsNameText.decoded {str : StringView} (isName : IsNameText str.chars)
    (terminated : str.Terminated) (reads : List Nat) :
    Name.toString ⟨(stringToUint64 str reads).1⟩ = str.chars := by
  obtain ⟨values, fits, last, packed, isText⟩ :=
    Name.toString_eq ⟨(stringToUint64 str reads).1⟩
  have same : values = str.chars.map symbol := by
    apply pack_inj fits isName.fits last isName.last_ne_zero
    rw [packed]
    exact isName.encoded terminated reads
  rw [isText, same, isName.chars_of_symbols]

/-- `set` accepts the text of a name. -/
theorem IsNameText.accepted {str : StringView} (isName : IsNameText str.chars)
    (terminated : str.Terminated) :
    ∃ n, (Name.set false str []).1 = .ok n ∧ n.toString = str.chars := by
  have isText := isName.decoded terminated []
  exact ⟨_, Name.set_ok_iff.mpr ⟨isName.short, rfl, isText⟩, isText⟩

/-- For strings that end in a zero, `set` accepts exactly the texts of names,
and the name of such a text has this text; every 64-bit value is the value of
its text, which is the text of a name. -/
theorem name_codec :
    (∀ str : StringView, str.Terminated →
      ((∃ n, (Name.set false str []).1 = .ok n) ↔ IsNameText str.chars)) ∧
    (∀ str : StringView, str.Terminated → IsNameText str.chars →
      ∃ n, (Name.set false str []).1 = .ok n ∧ n.toString = str.chars) ∧
    (∀ (v : UInt64) (following : Nat → UInt8), following 0 = 0 →
      IsNameText (Name.toString ⟨v⟩) ∧
      (stringToUint64 ⟨Name.toString ⟨v⟩, following⟩ []).1 = v) := by
  refine ⟨?_, ?_, ?_⟩
  · intro str terminated
    constructor
    · rintro ⟨n, accepted⟩
      obtain ⟨_, _, isText⟩ := Name.set_ok_iff.mp accepted
      rw [← isText]
      exact n.isNameText_toString
    · intro isName
      obtain ⟨n, accepted, _⟩ := isName.accepted terminated
      exact ⟨n, accepted⟩
  · intro str terminated isName
    exact isName.accepted terminated
  · intro v following endsInZero
    refine ⟨Name.isNameText_toString ⟨v⟩, ?_⟩
    obtain ⟨str, isStr⟩ : ∃ str : StringView,
        str = ⟨Name.toString ⟨v⟩, following⟩ := ⟨_, rfl⟩
    have isChars : str.chars = Name.toString ⟨v⟩ := by rw [isStr]
    have isName : IsNameText str.chars := by
      rw [isChars]
      exact Name.isNameText_toString ⟨v⟩
    have noZero : ¬ IsNameChar 0 := by decide
    have terminated : str.Terminated :=
      ⟨fun hasZero => noZero (isName.chars 0 hasZero),
        by rw [isStr]; exact endsInZero⟩
    obtain ⟨values, fits, last, packed, isText⟩ := Name.toString_eq ⟨v⟩
    apply UInt64.toNat_inj.mp
    rw [← isStr, isName.encoded terminated [], isChars, isText,
      symbols_of_chars fits, packed]

/-- The literal "a.b" and the largest value. -/
theorem name_codec_dotted :
    IsNameText [97, 46, 98] ∧
    (∃ n, (Name.set false ⟨[97, 46, 98], fun _ => 0⟩ []).1 = .ok n ∧
      n.toString = [97, 46, 98]) ∧
    (stringToUint64 ⟨Name.toString ⟨18446744073709551615⟩, fun _ => 0⟩ []).1 =
      18446744073709551615 := by
  have isName : IsNameText [97, 46, 98] :=
    ⟨by decide, by decide +kernel, nofun, by decide⟩
  obtain ⟨_, accepts, decodes⟩ := name_codec
  have terminated : StringView.Terminated ⟨[97, 46, 98], fun _ => 0⟩ :=
    ⟨by decide, rfl⟩
  have decoded := decodes 18446744073709551615 (fun _ => 0) rfl
  exact ⟨isName, accepts _ terminated isName, decoded.2⟩

/-! ## The order of names -/

theorem charOf_inj {left right : Nat} (leftSmall : left < 32)
    (rightSmall : right < 32) : charOf left = charOf right ↔ left = right := by
  constructor
  · intro same
    rw [← symbol_charOf leftSmall, ← symbol_charOf rightSmall, same]
  · rintro rfl
    rfl

/-- Names are ordered as their texts are. -/
theorem Name.lt_iff_toString_lt (left right : Name) :
    left < right ↔ left.toString < right.toString := by
  obtain ⟨leftValues, leftFits, leftLast, leftPacked, leftText⟩ :=
    left.toString_eq
  obtain ⟨rightValues, rightFits, rightLast, rightPacked, rightText⟩ :=
    right.toString_eq
  have sameOrder : leftValues.map charOf < rightValues.map charOf ↔
      leftValues < rightValues := by
    apply lt_map_iff
    · intro value member other member'
      exact charOf_lt_charOf_iff (value_lt leftFits member)
        (value_lt rightFits member')
    · intro value member other member'
      exact charOf_inj (value_lt leftFits member) (value_lt rightFits member')
  have packedOrder :=
    pack_lt_pack_iff leftFits rightFits leftLast rightLast
  rw [leftText, rightText, sameOrder, ← packedOrder, leftPacked, rightPacked]
  exact UInt64.lt_iff_toNat_lt

/-! ## What is read of a view -/

section Reads

variable {left right str : StringView}

theorem mem_readsOf {i : Nat} :
    i ∈ readsOf str ↔ i ≤ (textFrom str 12 0).length := by
  have short := textFrom_length_le str 12 0
  rw [readsOf, List.mem_append, List.mem_range'_1]
  by_cases isTwelve : (textFrom str 12 0).length = 12
  · rw [if_pos isTwelve, List.mem_singleton]
    omega
  · rw [if_neg isTwelve]
    simp only [List.not_mem_nil, or_false]
    omega

/-- The loop sees nothing but the characters that it reads. -/
theorem textFrom_congr : ∀ (remaining i : Nat),
    (∀ j, i ≤ j → j ≤ i + (textFrom left remaining i).length →
      left.charAt j = right.charAt j) →
    textFrom left remaining i = textFrom right remaining i
  | 0, _, _ => rfl
  | remaining + 1, i, agree => by
      have first := agree i (Nat.le_refl i) (Nat.le_add_right _ _)
      rw [textFrom, textFrom, ← first]
      rw [textFrom] at agree
      by_cases isZero : left.charAt i = 0
      · rw [if_pos isZero, if_pos isZero]
      · rw [if_neg isZero] at agree
        rw [if_neg isZero, if_neg isZero, textFrom_congr remaining (i + 1)]
        intro j atLeast atMost
        apply agree j (by omega)
        rw [List.length_cons]
        omega

/-- Views that agree where the first is read have the same value, and the same
positions are read. -/
theorem stringToUint64_congr
    (agree : ∀ i ∈ readsOf left, left.charAt i = right.charAt i)
    (reads : List Nat) :
    stringToUint64 left reads = stringToUint64 right reads := by
  have sameText : textFrom left 12 0 = textFrom right 12 0 := by
    apply textFrom_congr
    intro j _ atMost
    exact agree j (mem_readsOf.mpr (by omega))
  have sameReads : readsOf left = readsOf right := by
    rw [readsOf, readsOf, sameText]
  have sameFields : fieldsOf left = fieldsOf right := by
    rw [fieldsOf, fieldsOf, ← sameText]
    by_cases isTwelve : (textFrom left 12 0).length = 12
    · rw [if_pos isTwelve, if_pos isTwelve,
        agree 12 (mem_readsOf.mpr (by omega))]
    · rw [if_neg isTwelve, if_neg isTwelve]
  obtain ⟨value, encodes, isValue⟩ := stringToUint64_apply left reads
  obtain ⟨value', encodes', isValue'⟩ := stringToUint64_apply right reads
  have sameValue : value = value' := by
    apply UInt64.toNat_inj.mp
    rw [isValue, isValue', sameFields]
  rw [encodes, encodes', sameValue, sameReads]

/-- The loop stops at a zero. -/
theorem textFrom_length_le_of_zero : ∀ {remaining i offset : Nat},
    str.charAt (i + offset) = 0 → (textFrom str remaining i).length ≤ offset
  | 0, _, _, _ => Nat.zero_le _
  | remaining + 1, i, 0, isZero => by
      rw [Nat.add_zero] at isZero
      rw [textFrom, if_pos isZero]
      exact Nat.le_refl 0
  | remaining + 1, i, offset + 1, isZero => by
      rw [textFrom]
      split
      · exact Nat.zero_le _
      · apply Nat.succ_le_succ
        apply textFrom_length_le_of_zero
        rw [Nat.add_assoc, Nat.add_comm 1]
        exact isZero

end Reads

/-- Only the characters of the view are read, and neither the value nor the
name depends on the memory behind them. -/
structure DependsOnChars (chars : Bytes) : Prop where
  inside : ∀ following : Nat → UInt8,
    ∀ i ∈ (stringToUint64 ⟨chars, following⟩ []).2, i < chars.length
  value : ∀ following following' : Nat → UInt8,
    (stringToUint64 ⟨chars, following⟩ []).1 =
      (stringToUint64 ⟨chars, following'⟩ []).1
  name : ∀ (ndebug : Bool) (following following' : Nat → UInt8),
    (Name.set ndebug ⟨chars, following⟩ []).1 =
      (Name.set ndebug ⟨chars, following'⟩ []).1

/-- For a view of at most 13 characters this holds if and only if it has 13 or
contains a zero. -/
theorem dependsOnChars_iff {chars : Bytes} (short : chars.length ≤ 13) :
    DependsOnChars chars ↔ chars.length = 13 ∨ 0 ∈ chars := by
  constructor
  · intro depends
    by_contra neither
    rw [not_or] at neither
    obtain ⟨notLong, noZero⟩ := neither
    -- a zero behind the view ends the loop, and it is read
    have terminated : StringView.Terminated ⟨chars, fun _ => 0⟩ := ⟨noZero, rfl⟩
    have isText : textFrom ⟨chars, fun _ => 0⟩ 12 0 = chars := by
      rw [terminated.textFrom_eq 12 0 (Nat.zero_le _), List.drop_zero,
        List.take_of_length_le]
      exact (by omega : chars.length ≤ 12)
    obtain ⟨value, encodes, _⟩ := stringToUint64_apply ⟨chars, fun _ => 0⟩ []
    have isRead : chars.length ∈
        (stringToUint64 ⟨chars, fun _ => 0⟩ []).2 := by
      rw [encodes, List.nil_append, mem_readsOf, isText]
    exact Nat.lt_irrefl _ (depends.inside _ _ isRead)
  · intro ends
    have fewer : ∀ following : Nat → UInt8,
        (textFrom ⟨chars, following⟩ 12 0).length < chars.length := by
      intro following
      rcases ends with isLong | hasZero
      · have atMost := textFrom_length_le ⟨chars, following⟩ 12 0
        omega
      · obtain ⟨i, inside, isZero⟩ := List.getElem_of_mem hasZero
        have zeroAt : StringView.charAt ⟨chars, following⟩ (0 + i) = 0 := by
          rw [Nat.zero_add]
          exact (StringView.charAt_of_lt inside).trans isZero
        exact Nat.lt_of_le_of_lt (textFrom_length_le_of_zero zeroAt) inside
    have same : ∀ following following' : Nat → UInt8,
        stringToUint64 ⟨chars, following⟩ [] =
          stringToUint64 ⟨chars, following'⟩ [] := by
      intro following following'
      apply stringToUint64_congr
      intro i isRead
      have inside : i < chars.length :=
        Nat.lt_of_le_of_lt (mem_readsOf.mp isRead) (fewer following)
      rw [StringView.charAt, StringView.charAt,
        List.getElem?_eq_getElem inside, Option.getD_some, Option.getD_some]
    refine ⟨?_, ?_, ?_⟩
    · intro following i isRead
      obtain ⟨value, encodes, _⟩ := stringToUint64_apply ⟨chars, following⟩ []
      rw [encodes, List.nil_append, mem_readsOf] at isRead
      exact Nat.lt_of_le_of_lt isRead (fewer following)
    · intro following following'
      rw [same following following']
    · intro ndebug following following'
      rw [Name.set_apply, Name.set_apply, same following following']

/-- A view of 13 characters. -/
theorem dependsOnChars_thirteen : DependsOnChars (List.replicate 13 97) :=
  (dependsOnChars_iff (by decide)).mpr (Or.inl (by decide))

/-- The first two characters of "abc", and "ab" alone: the view is rejected
in the first place and accepted in the second. -/
theorem name_depends_on_next_char :
    (stringToUint64 ⟨[97, 98], fun i => if i = 0 then 99 else 0⟩ []).1 ≠
      (stringToUint64 ⟨[97, 98], fun _ => 0⟩ []).1 ∧
    (Name.set false ⟨[97, 98], fun i => if i = 0 then 99 else 0⟩ []).1 =
      .error (.assertion "Name not properly normalized ") ∧
    (Name.set false ⟨[97, 98], fun _ => 0⟩ []).1 =
      .ok ⟨3584865303386914816⟩ ∧
    ¬ DependsOnChars [97, 98] := by
  have differs : (stringToUint64
      ⟨[97, 98], fun i => if i = 0 then 99 else 0⟩ []).1 ≠
        (stringToUint64 ⟨[97, 98], fun _ => 0⟩ []).1 := by
    decide
  refine ⟨differs, by decide, by decide, ?_⟩
  intro depends
  exact differs (depends.value _ _)

end StateDatabase
