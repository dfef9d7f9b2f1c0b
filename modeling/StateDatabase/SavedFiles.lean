import Mathlib
import StateDatabase.MappedFile

/-!
# Saving and loading

In heap mode the memory is copied to the file block by block, and blocks of
zeros are skipped: they are zeros in a new file.  A block that was written
before and has become zeros keeps its old bytes in the file.

Both loops end only when the offset equals the size, and the size is a multiple
of the block size because every request asks for such a size.
-/

namespace StateDatabase

open Programs CrashPrograms

/-! ## Blocks -/

/-- The block with this number; the last one may be shorter. -/
def blockOf (bytes : Bytes) (number : Nat) : Bytes :=
  (bytes.drop (number * dbSizeMultipleRequirement)).take
    dbSizeMultipleRequirement

def ZeroBlock (bytes : Bytes) (number : Nat) : Prop :=
  ∀ value ∈ blockOf bytes number, value = 0

instance (bytes : Bytes) (number : Nat) : Decidable (ZeroBlock bytes number) := by
  unfold ZeroBlock
  infer_instance

theorem blockSize_pos : 0 < dbSizeMultipleRequirement := by
  decide

theorem getElem?_blockOf (bytes : Bytes) (number i : Nat) :
    (blockOf bytes number)[i]? =
      if i < dbSizeMultipleRequirement then
        bytes[number * dbSizeMultipleRequirement + i]?
      else none := by
  rw [blockOf, List.getElem?_take, List.getElem?_drop]

/-- A byte belongs to the block of its position. -/
theorem mem_blockOf_iff {bytes : Bytes} {number : Nat} {value : UInt8} :
    value ∈ blockOf bytes number ↔
      ∃ i, i / dbSizeMultipleRequirement = number ∧ bytes[i]? = some value := by
  rw [List.mem_iff_getElem?]
  constructor
  · rintro ⟨i, isValue⟩
    rw [getElem?_blockOf] at isValue
    split at isValue
    · rename_i inside
      refine ⟨_, ?_, isValue⟩
      rw [Nat.mul_comm, Nat.mul_add_div blockSize_pos, Nat.div_eq_of_lt inside,
        Nat.add_zero]
    · cases isValue
  · rintro ⟨i, isNumber, isValue⟩
    refine ⟨i % dbSizeMultipleRequirement, ?_⟩
    rw [getElem?_blockOf, if_pos (Nat.mod_lt i blockSize_pos), ← isNumber,
      Nat.mul_comm, Nat.div_add_mod]
    exact isValue

theorem allZeros_iff : ∀ (words : Nat) (data : Bytes),
    allZeros words data = true ↔ ∀ value ∈ data.take (8 * words), value = 0
  | 0, data => by
      rw [allZeros, Nat.mul_zero, List.take_zero]
      simp
  | words + 1, data => by
      rw [allZeros, Nat.mul_succ, Nat.add_comm, List.take_add,
        List.forall_mem_append, ← allZeros_iff words]
      by_cases nonzero : (data.take 8).any (· != 0) = true
      · rw [if_pos nonzero]
        obtain ⟨value, member, notZero⟩ := List.any_eq_true.mp nonzero
        apply iff_of_false Bool.false_ne_true
        rintro ⟨firstZero, _⟩
        rw [firstZero value member] at notZero
        cases notZero
      · rw [if_neg nonzero]
        have firstZero : ∀ value ∈ data.take 8, value = 0 := by
          intro value member
          by_contra notZero
          exact nonzero (List.any_eq_true.mpr ⟨value, member, bne_iff_ne.mpr notZero⟩)
        exact ⟨fun rest => ⟨firstZero, rest⟩, fun both => both.2⟩

theorem allZeros_blockOf (bytes : Bytes) (number : Nat) :
    allZeros (dbSizeMultipleRequirement / 8) (blockOf bytes number) = true ↔
      ZeroBlock bytes number := by
  have words : 8 * (dbSizeMultipleRequirement / 8) =
      dbSizeMultipleRequirement := by decide
  rw [allZeros_iff, words, ZeroBlock, List.take_of_length_le]
  rw [blockOf, List.length_take]
  exact Nat.min_le_left _ _

/-! ## Saving -/

/-- The blocks of the memory from some number on were copied to the file,
except for those of zeros. -/
structure SavedFrom (src file : Bytes) (number : Nat) (saved : Bytes) :
    Prop where
  length : saved.length = file.length
  bytes : ∀ i, saved[i]? =
    if number * dbSizeMultipleRequirement ≤ i ∧
        ¬ ZeroBlock src (i / dbSizeMultipleRequirement) then src[i]?
    else file[i]?

section Save

variable {src file saved : Bytes} {number : Nat}

theorem block_index {i : Nat}
    (atLeast : number * dbSizeMultipleRequirement ≤ i)
    (below : ¬ (number + 1) * dbSizeMultipleRequirement ≤ i) :
    i / dbSizeMultipleRequirement = number := by
  apply Nat.div_eq_of_lt_le atLeast
  omega

/-- A block of zeros is skipped. -/
theorem SavedFrom.skip (savedFrom : SavedFrom src file (number + 1) saved)
    (isZero : ZeroBlock src number) : SavedFrom src file number saved where
  length := savedFrom.length
  bytes := by
    intro i
    rw [savedFrom.bytes i]
    by_cases later : (number + 1) * dbSizeMultipleRequirement ≤ i
    · have atLeast : number * dbSizeMultipleRequirement ≤ i := by
        rw [Nat.add_one_mul] at later
        omega
      simp only [later, atLeast, true_and]
    · rw [if_neg fun both => later both.1, if_neg]
      rintro ⟨atLeast, notZero⟩
      rw [block_index atLeast later] at notZero
      exact notZero isZero

/-- Another block is copied. -/
theorem SavedFrom.copy
    (savedFrom : SavedFrom src
      (copiedTo (number * dbSizeMultipleRequirement) (blockOf src number) file)
      (number + 1) saved)
    (notZero : ¬ ZeroBlock src number)
    (inside : (number + 1) * dbSizeMultipleRequirement ≤ file.length)
    (inMemory : (number + 1) * dbSizeMultipleRequirement ≤ src.length) :
    SavedFrom src file number saved where
  length := savedFrom.length.trans (copiedTo_length _ _ _)
  bytes := by
    intro i
    rw [Nat.add_one_mul] at inside inMemory
    have full : (blockOf src number).length = dbSizeMultipleRequirement := by
      rw [blockOf, List.length_take, List.length_drop]
      omega
    rw [savedFrom.bytes i, getElem?_copiedTo i (by omega), full]
    by_cases later : (number + 1) * dbSizeMultipleRequirement ≤ i
    · have behind : number * dbSizeMultipleRequirement +
          dbSizeMultipleRequirement ≤ i := by
        rw [Nat.add_one_mul] at later
        exact later
      have atLeast : number * dbSizeMultipleRequirement ≤ i := by omega
      have notInside := Nat.not_lt.mpr behind
      simp only [later, atLeast, notInside, true_and, and_false, if_false]
    · rw [if_neg fun both => later both.1]
      by_cases atLeast : number * dbSizeMultipleRequirement ≤ i
      · have isNumber := block_index atLeast later
        rw [Nat.add_one_mul] at later
        rw [if_pos ⟨atLeast, by omega⟩, if_pos ⟨atLeast, isNumber ▸ notZero⟩,
          getElem?_blockOf, if_pos (by omega)]
        congr 1
        omega
      · rw [if_neg fun both => atLeast both.1, if_neg fun both => atLeast both.1]

theorem saveLoop_end {size : Nat} : saveLoop src size size = pure ⟨⟩ := by
  rw [saveLoop, if_pos rfl]

theorem saveLoop_block {size : Nat}
    (inside : (number + 1) * dbSizeMultipleRequirement ≤ size)
    (inMemory : (number + 1) * dbSizeMultipleRequirement ≤ src.length) :
    saveLoop src size (number * dbSizeMultipleRequirement) =
      if ZeroBlock src number then
        saveLoop src size ((number + 1) * dbSizeMultipleRequirement)
      else
        copyTo (number * dbSizeMultipleRequirement) (blockOf src number) >>=
          fun _ => saveLoop src size
            ((number + 1) * dbSizeMultipleRequirement) := by
  have positive := blockSize_pos
  have isZero_iff := allZeros_blockOf src number
  rw [blockOf] at isZero_iff
  rw [Nat.add_one_mul] at inside inMemory
  rw [saveLoop, if_neg (by omega), dif_pos ⟨inside, inMemory⟩, Nat.add_one_mul]
  by_cases isZero : ZeroBlock src number
  · simp only [isZero_iff.mpr isZero, isZero, Bool.true_eq_false, if_false,
      if_true]
  · have notAll := Bool.eq_false_iff.mpr (isZero_iff.not.mpr isZero)
    simp only [notAll, isZero, if_true, if_false]
    rfl

/-- Saving ends.  It keeps what is kept by writing a byte of the memory to its
place in the file. -/
theorem passes_saveLoop {always : Option Bytes → Prop}
    {post : PUnit → Option Bytes → Prop}
    {fail : Fault → Option Bytes → Prop} (invariant : Bytes → Prop)
    (allowed : ∀ bytes, invariant bytes → always (some bytes))
    (keeps : ∀ i value, src[i]? = some value → ∀ bytes, invariant bytes →
      invariant (bytes.set i value))
    (sameLength : src.length = file.length) (blocks : Nat)
    (atEnd : (number + blocks) * dbSizeMultipleRequirement = file.length)
    (holds : ∀ saved, invariant saved → SavedFrom src file number saved →
      post ⟨⟩ (some saved))
    (starts : invariant file) :
    Passes always
      (saveLoop src file.length (number * dbSizeMultipleRequirement))
      (some file) post fail := by
  induction blocks generalizing number file with
  | zero =>
      rw [Nat.add_zero] at atEnd
      rw [atEnd, saveLoop_end]
      apply passes_pure
      apply holds file starts
      refine ⟨rfl, fun i => ?_⟩
      rw [atEnd]
      by_cases behind : file.length ≤ i
      · have inMemory : src.length ≤ i := by omega
        rw [List.getElem?_eq_none behind, List.getElem?_eq_none inMemory,
          ite_self]
      · rw [if_neg fun both => behind both.1]
  | succ blocks inductionHypothesis =>
      have next : (number + 1 + blocks) * dbSizeMultipleRequirement =
          file.length := by
        rw [← atEnd, Nat.add_right_comm, Nat.add_assoc]
      have inside : (number + 1) * dbSizeMultipleRequirement ≤ file.length := by
        rw [← next]
        exact Nat.mul_le_mul_right _ (Nat.le_add_right _ _)
      have inMemory := inside
      rw [← sameLength] at inMemory
      rw [saveLoop_block inside inMemory]
      by_cases isZero : ZeroBlock src number
      · rw [if_pos isZero]
        apply inductionHypothesis sameLength next _ starts
        intro saved kept savedFrom
        exact holds saved kept (savedFrom.skip isZero)
      · rw [if_neg isZero]
        apply passes_bind
        apply passes_copyTo invariant allowed _ _ starts
        · intro i value isValue bytes kept
          rw [getElem?_blockOf] at isValue
          split at isValue
          · exact keeps _ value isValue bytes kept
          · cases isValue
        · rintro final kept rfl
          have length := copiedTo_length
            (number * dbSizeMultipleRequirement) (blockOf src number) file
          rw [← length]
          apply inductionHypothesis (sameLength.trans length.symm)
            (next.trans length.symm) _ kept
          intro saved savedKept savedFrom
          exact holds saved savedKept
            (savedFrom.copy isZero inside inMemory)

/-- The file is the memory unless a block of zeros has other bytes in the
file. -/
theorem SavedFrom.eq_iff (savedFrom : SavedFrom src file 0 saved)
    (sameLength : src.length = file.length) :
    saved = src ↔ ∀ number, ZeroBlock src number → ZeroBlock file number := by
  have bytes := savedFrom.bytes
  simp only [Nat.zero_mul, Nat.zero_le, true_and] at bytes
  constructor
  · rintro rfl number isZero value member
    obtain ⟨i, isNumber, isValue⟩ := mem_blockOf_iff.mp member
    have same := bytes i
    rw [isNumber, if_neg (not_not.mpr isZero), isValue] at same
    exact isZero value (mem_blockOf_iff.mpr ⟨i, isNumber, same⟩)
  · intro zeros
    apply List.ext_getElem?
    intro i
    rw [bytes i]
    by_cases isZero : ZeroBlock src (i / dbSizeMultipleRequirement)
    · rw [if_neg (not_not.mpr isZero)]
      by_cases inside : i < file.length
      · have inMemory : i < src.length := by omega
        have fileZero := zeros _ isZero file[i]
          (mem_blockOf_iff.mpr ⟨i, rfl, List.getElem?_eq_getElem inside⟩)
        have srcZero := isZero src[i]
          (mem_blockOf_iff.mpr ⟨i, rfl, List.getElem?_eq_getElem inMemory⟩)
        rw [List.getElem?_eq_getElem inside,
          List.getElem?_eq_getElem inMemory, fileZero, srcZero]
      · rw [List.getElem?_eq_none (by omega), List.getElem?_eq_none (by omega)]
    · rw [if_pos isZero]

end Save

/-! ## Loading -/

section Load

variable {src dst : Bytes} {signal : Option Nat}

/-- No signal arrives before all blocks are copied. -/
def Uninterrupted (signal : Option Nat) (size : Nat) : Prop :=
  ∀ number, 1 ≤ number → number * dbSizeMultipleRequirement ≤ size →
    signal ≠ some number

/-- The memory after a `memcpy` from the same place in the file. -/
theorem copied_block {offset size : Nat} (inside : offset + size ≤ src.length)
    (sameLength : dst.length = src.length)
    (copied : dst.take offset = src.take offset) :
    let next := dst.take offset ++ (src.drop offset).take size ++
      dst.drop (offset + size)
    next.length = src.length ∧
      next.take (offset + size) = src.take (offset + size) := by
  have length : (dst.take offset ++ (src.drop offset).take size).length =
      offset + size := by
    rw [List.length_append, List.length_take, List.length_take,
      List.length_drop]
    omega
  constructor
  · rw [List.length_append, length, List.length_drop]
    omega
  · rw [List.take_append_of_le_length (by omega), List.take_of_length_le
      (by omega), copied, ← List.take_add]

/-- Loading ends with the bytes of the file, unless a signal arrives or the
last block is not a whole one. -/
theorem loadLoop_ok_iff {number : Nat} {memory : Bytes}
    (sameLength : dst.length = src.length)
    (inside : number * dbSizeMultipleRequirement ≤ src.length)
    (copied : dst.take (number * dbSizeMultipleRequirement) =
      src.take (number * dbSizeMultipleRequirement)) :
    loadLoop signal src dst (number * dbSizeMultipleRequirement) number =
        .ok memory ↔
      memory = src ∧ dbSizeMultipleRequirement ∣ src.length ∧
        ∀ later, number < later →
          later * dbSizeMultipleRequirement ≤ src.length →
            signal ≠ some later := by
  have positive := blockSize_pos
  induction isRemaining : src.length - number * dbSizeMultipleRequirement using
    Nat.strong_induction_on generalizing number dst with
  | _ remaining inductionHypothesis =>
      rw [loadLoop]
      by_cases atEnd : number * dbSizeMultipleRequirement = src.length
      · rw [if_pos atEnd, Except.ok.injEq]
        rw [atEnd, ← sameLength, List.take_length, sameLength,
          List.take_length] at copied
        rw [copied]
        constructor
        · rintro rfl
          refine ⟨rfl, Dvd.intro_left number atEnd, ?_⟩
          intro later isLater isInside
          rw [← atEnd] at isInside
          exact absurd (Nat.le_of_mul_le_mul_right isInside positive)
            (Nat.not_le.mpr isLater)
        · exact fun holds => holds.1.symm
      · rw [if_neg atEnd]
        by_cases whole : number * dbSizeMultipleRequirement +
            dbSizeMultipleRequirement ≤ src.length
        · rw [dif_pos ⟨whole, sameLength ▸ whole⟩]
          by_cases interrupted : signal = some (number + 1)
          · rw [if_pos interrupted]
            constructor
            · intro failed
              cases failed
            · rintro ⟨_, _, uninterrupted⟩
              rw [← Nat.add_one_mul] at whole
              exact absurd interrupted
                (uninterrupted (number + 1) (Nat.lt_succ_self number) whole)
          · rw [if_neg interrupted]
            obtain ⟨length, copiedNext⟩ := copied_block whole sameLength copied
            have fewer : src.length - (number + 1) * dbSizeMultipleRequirement <
                remaining := by
              rw [Nat.add_one_mul]
              omega
            rw [← Nat.add_one_mul] at whole length copiedNext ⊢
            apply (inductionHypothesis _ fewer length whole copiedNext rfl).trans
            have first : (∀ later, number < later →
                later * dbSizeMultipleRequirement ≤ src.length →
                  signal ≠ some later) ↔
                ∀ later, number + 1 < later →
                  later * dbSizeMultipleRequirement ≤ src.length →
                    signal ≠ some later := by
              constructor
              · intro uninterrupted later isLater
                exact uninterrupted later (by omega)
              · intro uninterrupted later isLater isInside
                rcases Nat.eq_or_lt_of_le isLater with rfl | isAfter
                · exact interrupted
                · exact uninterrupted later isAfter isInside
            rw [first]
        · rw [dif_neg fun both => whole both.1]
          constructor
          · intro failed
            cases failed
          · rintro ⟨_, ⟨blocks, isMultiple⟩, _⟩
            rw [Nat.mul_comm] at isMultiple
            rw [isMultiple] at inside atEnd whole
            rw [← Nat.add_one_mul] at whole
            have fewer := Nat.le_of_mul_le_mul_right inside positive
            have notFewer : ¬ number + 1 ≤ blocks := fun isFewer =>
              whole (Nat.mul_le_mul_right _ isFewer)
            have same : number = blocks := by omega
            exact absurd (by rw [same]) atEnd

/-- `load_database_file` -/
theorem loadDatabaseFile_ok_iff {memory : Bytes} :
    loadDatabaseFile signal src = .ok memory ↔
      memory = src ∧ dbSizeMultipleRequirement ∣ src.length ∧
        Uninterrupted signal src.length := by
  have length : (List.replicate src.length (0 : UInt8)).length = src.length :=
    List.length_replicate ..
  have inside : 0 * dbSizeMultipleRequirement ≤ src.length := by
    rw [Nat.zero_mul]
    exact Nat.zero_le _
  have copied : (List.replicate src.length (0 : UInt8)).take
      (0 * dbSizeMultipleRequirement) =
        src.take (0 * dbSizeMultipleRequirement) := by
    rw [Nat.zero_mul, List.take_zero, List.take_zero]
  rw [loadDatabaseFile, ← Nat.zero_mul dbSizeMultipleRequirement]
  exact loadLoop_ok_iff length inside copied

end Load

end StateDatabase
