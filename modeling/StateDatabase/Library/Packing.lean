import Mathlib

/-!
# Byte encodings of numbers

Fixed-width numbers, least significant byte first, and numbers in groups of
seven bits with a continuation bit.  Both can be told apart from their bytes,
the second also when other bytes follow.
-/

namespace Packing

/-- The lowest `width` bytes of a number, least significant first. -/
def littleEndian : Nat → Nat → List UInt8
  | 0, _ => []
  | width + 1, value => UInt8.ofNat value :: littleEndian width (value / 256)

@[simp]
theorem littleEndian_length : ∀ (width value : Nat),
    (littleEndian width value).length = width
  | 0, _ => rfl
  | width + 1, value =>
      congrArg (· + 1) (littleEndian_length width (value / 256))

theorem ofNat_inj {left right : Nat} (leftSmall : left < 256)
    (rightSmall : right < 256)
    (equal : UInt8.ofNat left = UInt8.ofNat right) : left = right := by
  have sameNat := congrArg UInt8.toNat equal
  rwa [UInt8.toNat_ofNat_of_lt' leftSmall, UInt8.toNat_ofNat_of_lt' rightSmall]
    at sameNat

/-- Numbers that fit are told apart by their bytes. -/
theorem littleEndian_inj : ∀ {width left right : Nat},
    left < 256 ^ width → right < 256 ^ width →
      littleEndian width left = littleEndian width right → left = right
  | 0, left, right, leftSmall, rightSmall, _ => by
      omega
  | width + 1, left, right, leftSmall, rightSmall, equal => by
      rw [pow_succ] at leftSmall rightSmall
      obtain ⟨sameByte, sameRest⟩ := List.cons.inj equal
      have low : left % 256 = right % 256 := by
        have sameNat := congrArg UInt8.toNat sameByte
        simpa [UInt8.toNat_ofNat'] using sameNat
      have high : left / 256 = right / 256 :=
        littleEndian_inj (Nat.div_lt_of_lt_mul (by omega))
          (Nat.div_lt_of_lt_mul (by omega)) sameRest
      omega

/-- Groups of seven bits, least significant first; the highest bit of a byte
says whether more follow.  `groups` bounds the number of bytes. -/
def varint : Nat → Nat → List UInt8
  | 0, _ => []
  | groups + 1, value =>
      if value / 128 = 0 then
        [UInt8.ofNat (value % 128)]
      else
        UInt8.ofNat (value % 128 + 128) :: varint groups (value / 128)

/-- The first group decides whether another one follows, so an encoded number
is found again in front of other bytes. -/
theorem varint_append_inj : ∀ {groups left right : Nat} {rest rest' : List UInt8},
    left < 128 ^ groups → right < 128 ^ groups →
      varint groups left ++ rest = varint groups right ++ rest' →
        left = right ∧ rest = rest'
  | 0, left, right, rest, rest', leftSmall, rightSmall, equal => by
      exact ⟨by omega, equal⟩
  | groups + 1, left, right, rest, rest', leftSmall, rightSmall, equal => by
      rw [pow_succ] at leftSmall rightSmall
      rw [varint, varint] at equal
      by_cases leftLast : left / 128 = 0
      · by_cases rightLast : right / 128 = 0
        · rw [if_pos leftLast, if_pos rightLast] at equal
          obtain ⟨sameByte, sameRest⟩ := List.cons.inj equal
          have low := ofNat_inj (by omega) (by omega) sameByte
          exact ⟨by omega, sameRest⟩
        · rw [if_pos leftLast, if_neg rightLast] at equal
          have low := ofNat_inj (by omega) (by omega) (List.cons.inj equal).1
          omega
      · by_cases rightLast : right / 128 = 0
        · rw [if_neg leftLast, if_pos rightLast] at equal
          have low := ofNat_inj (by omega) (by omega) (List.cons.inj equal).1
          omega
        · rw [if_neg leftLast, if_neg rightLast] at equal
          obtain ⟨sameByte, sameRest⟩ := List.cons.inj equal
          have low := ofNat_inj (by omega) (by omega) sameByte
          obtain ⟨high, later⟩ :=
            varint_append_inj (Nat.div_lt_of_lt_mul (by omega))
              (Nat.div_lt_of_lt_mul (by omega)) sameRest
          exact ⟨by omega, later⟩

end Packing
