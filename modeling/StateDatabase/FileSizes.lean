import Mathlib
import StateDatabase.FileOpens

/-!
# The sizes of files

Every file that the constructor makes or grows has a size that was asked for,
so its size is a multiple of the block size, over any sequence of requests.
The loops that load and save a file end for this reason.
-/

namespace StateDatabase

open Programs CrashPrograms Packing

/-- The file consists of whole blocks. -/
def WholeBlocks (content : Option Bytes) : Prop :=
  ∀ bytes, content = some bytes → dbSizeMultipleRequirement ∣ bytes.length

/-- The files that there can be after any sequence of requests.  Between them
the bytes change and the size does not. -/
inductive Produced (boost : SegmentManager) (environ : Environment) :
    Option Bytes → Prop
  | absent : Produced boost environ none
  | opened {found : Option Bytes} (system : System) (request : OpenRequest) :
      Produced boost environ found →
        Produced boost environ (left
          (openPinnableMappedFile boost environ system request
            ⟨found, []⟩)).current
  | used {bytes other : Bytes} :
      Produced boost environ (some bytes) → other.length = bytes.length →
        Produced boost environ (some other)

section Sizes

variable {boost : SegmentManager} {environ : Environment} {system : System}
  {request : OpenRequest} {bytes other : Bytes} {found : Option Bytes}

theorem wholeBlocks_none : WholeBlocks none := by
  intro bytes isNone
  cases isNone

theorem wholeBlocks_some_iff :
    WholeBlocks (some bytes) ↔ dbSizeMultipleRequirement ∣ bytes.length := by
  constructor
  · intro whole
    exact whole bytes rfl
  · rintro isMultiple _ ⟨⟩
    exact isMultiple

theorem WholeBlocks.of_length (whole : WholeBlocks (some bytes))
    (sameLength : other.length = bytes.length) : WholeBlocks (some other) := by
  rw [wholeBlocks_some_iff] at whole ⊢
  rw [sameLength]
  exact whole

theorem wholeBlocks_set {offset : Nat} {value : UInt8}
    (whole : WholeBlocks (some bytes)) :
    WholeBlocks (some (bytes.set offset value)) :=
  whole.of_length (List.length_set ..)

/-- Marking and using a file does not change its size. -/
theorem wholeBlocks_markAndUse (whole : WholeBlocks (some bytes)) :
    Passes WholeBlocks (markDatabaseFile system request) (some bytes)
      (fun _ marked => Passes WholeBlocks (useDatabaseFile system request)
        marked (fun _ _ => True) (fun _ _ => True))
      (fun _ _ => True) := by
  have used : ∀ {bytes : Bytes}, WholeBlocks (some bytes) →
      Passes WholeBlocks (useDatabaseFile system request) (some bytes)
        (fun _ _ => True) (fun _ _ => True) := by
    intro bytes whole
    apply passes_useDatabaseFile
    · intro _
      trivial
    · intro _ _ _
      trivial
    · intro _ _
      trivial
    · intro _ _ _ _ _
      split
      · exact ⟨wholeBlocks_set whole, trivial⟩
      · trivial
    · intro _ _ _ _
      trivial
  apply passes_markDatabaseFile
  · intro _
    exact used whole
  · intro _ _ _
    trivial
  · intro _ _
    exact ⟨wholeBlocks_set whole, used (wholeBlocks_set whole)⟩

theorem wholeBlocks_resized {size : Nat}
    (isMultiple : size % dbSizeMultipleRequirement = 0) (bytes : Bytes)
    (notSmaller : bytes.length ≤ size) :
    WholeBlocks (some (resized size bytes)) := by
  rw [wholeBlocks_some_iff, resized, List.length_append, List.length_take,
    List.length_replicate, Nat.min_eq_right notSmaller,
    Nat.add_sub_cancel' notSmaller]
  exact Nat.dvd_of_mod_eq_zero isMultiple

/-- An open keeps the file a file of whole blocks. -/
theorem wholeBlocks_open (whole : WholeBlocks found) :
    Passes WholeBlocks (openPinnableMappedFile boost environ system request)
      found (fun _ _ => True) (fun _ _ => True) := by
  cases found with
  | none =>
      apply passes_openAbsent
      · intro _ _
        trivial
      · intro accepted _
        apply passes_createDatabaseFile
        · rw [wholeBlocks_some_iff]
          exact dvd_zero _
        · intro _ _
          trivial
        · intro _
          have zeros := wholeBlocks_resized accepted.size []
            (Nat.zero_le _)
          refine ⟨zeros, fun _ _ => trivial, fun _ _ => ?_⟩
          apply passes_pokeAll (WholeBlocks ∘ some) (fun _ kept => kept)
            (fun _ _ _ kept => wholeBlocks_set kept) _ zeros
          intro constructed isWhole _
          apply passes_copyTo (WholeBlocks ∘ some) (fun _ kept => kept)
            (fun _ _ _ _ kept => wholeBlocks_set kept) _ isWhole
          intro created createdWhole _
          exact wholeBlocks_markAndUse createdWhole
  | some bytes =>
      apply passes_openExisting
      · intro _ _
        trivial
      · intro _ _
        refine ⟨fun _ => trivial, ?_⟩
        apply passes_useDatabaseFile
        · intro _
          trivial
        · intro _ _ _
          trivial
        · intro _ _
          trivial
        · intro _ _ _ _ _
          split
          · exact ⟨wholeBlocks_set whole, trivial⟩
          · trivial
        · intro _ _ _ _
          trivial
      · intro admitted _
        apply passes_growDatabaseFile admitted.header.long
        · intro _ _ _
          trivial
        · intro larger _
          have grown := wholeBlocks_resized admitted.accepted.size bytes
            larger.le
          refine ⟨grown, fun _ _ => trivial, fun _ => ?_⟩
          apply passes_pokeAll (WholeBlocks ∘ some) (fun _ kept => kept)
            (fun _ _ _ kept => wholeBlocks_set kept) _ grown
          intro final isWhole _
          exact wholeBlocks_markAndUse isWhole
        · intro _ _ _
          trivial
        · intro _ _
          exact wholeBlocks_markAndUse whole

/-- Every file has whole blocks. -/
theorem Produced.wholeBlocks (produced : Produced boost environ found) :
    WholeBlocks found := by
  induction produced with
  | absent => exact wholeBlocks_none
  | opened system request _ inductionHypothesis =>
      exact (wholeBlocks_open inductionHypothesis).left inductionHypothesis _
        (Traced.current_mem _)
  | used _ sameLength inductionHypothesis =>
      exact inductionHypothesis.of_length sameLength

/-- A file that starts with this header. -/
def headed (environ : Environment) (mark : UInt8) (rest : Bytes) : Bytes :=
  littleEndian 8 headerId ++ (mark :: environ.bytes ++ rest)

theorem headed_validHeader (environ : Environment) (mark : UInt8) {rest : Bytes}
    (long : headerSize ≤ (headed environ mark rest).length) :
    ValidHeader environ (headed environ mark rest) where
  long := long
  id := List.take_left' (littleEndian_length ..)
  environ := by
    have nine : 9 = (littleEndian 8 headerId).length + 1 := by
      rw [littleEndian_length]
    rw [headed, nine, List.drop_append, Nat.add_sub_cancel_left,
      List.drop_of_length_le (Nat.le_succ _), List.nil_append, List.cons_append,
      List.drop_succ_cons, List.drop_zero, List.take_left' environ.length]

theorem headed_set_mark (environ : Environment) (mark other : UInt8)
    (rest : Bytes) :
    (headed environ mark rest).set headerDirtyBitOffset other =
      headed environ other rest := by
  rw [headed, List.set_append_right _ _ (by rw [littleEndian_length]; rfl)]
  rfl

theorem copiedTo_zero {data bytes : Bytes} (inside : data.length ≤ bytes.length) :
    copiedTo 0 data bytes = data ++ bytes.drop data.length := by
  apply List.ext_getElem?
  intro i
  rw [getElem?_copiedTo i (by omega), Nat.zero_add, Nat.sub_zero]
  by_cases isCopied : i < data.length
  · rw [if_pos ⟨Nat.zero_le i, isCopied⟩, List.getElem?_append_left isCopied]
  · rw [if_neg fun both => isCopied both.2,
      List.getElem?_append_right (Nat.le_of_not_lt isCopied),
      List.getElem?_drop, Nat.add_sub_cancel' (Nat.le_of_not_lt isCopied)]

theorem dbHeader_length (environ : Environment) :
    (dbHeader environ).length = 784 := by
  rw [dbHeader, List.length_append, littleEndian_length, List.length_cons,
    environ.length]

theorem copiedTo_dbHeader (environ : Environment) {bytes : Bytes}
    (long : headerSize ≤ bytes.length) :
    copiedTo 0 (dbHeader environ) bytes =
      headed environ 0 (bytes.drop 784) := by
  rw [headerSize] at long
  rw [copiedTo_zero (by rw [dbHeader_length]; omega), dbHeader_length, headed,
    dbHeader, List.append_assoc, List.cons_append]

/-- A file of one block. -/
def oneBlock : Bytes :=
  headed zeroEnvironment 0 (List.replicate (dbSizeMultipleRequirement - 784) 0)

theorem oneBlock_length : oneBlock.length = dbSizeMultipleRequirement := by
  have header := dbHeader_length zeroEnvironment
  rw [dbHeader, List.length_append, List.length_cons] at header
  rw [oneBlock, headed, List.length_append, List.length_append,
    List.length_cons, List.length_replicate, ← Nat.add_assoc, header]
  rfl

theorem oneBlock_validHeader : ValidHeader zeroEnvironment oneBlock := by
  apply headed_validHeader
  rw [← oneBlock, oneBlock_length]
  decide

theorem oneBlock_whole : dbSizeMultipleRequirement ∣ oneBlock.length := by
  rw [oneBlock_length]

/-- A file is created with the size that was asked for. -/
theorem passes_created (boost : SegmentManager) (environ : Environment)
    {size : UInt64}
    (isMultiple : size.toNat % dbSizeMultipleRequirement = 0)
    (notZero : size.toNat ≠ 0) :
    Passes (fun _ => True)
      (openPinnableMappedFile boost environ grantingSystem
        (requestIn .mapped size))
      none
      (fun process final => process = { writable := true, memory := none } ∧
        ∃ rest, final = some (headed environ 1 rest) ∧
          (headed environ 1 rest).length = size.toNat)
      (fun _ _ => False) := by
  apply passes_openAbsent
  · intro _ notAccepted
    exact notAccepted ⟨⟨isMultiple, Or.inl rfl, Or.inl rfl⟩, rfl⟩
  · intro _ _
    apply passes_createDatabaseFile trivial
    · intro _ notResized
      exact notResized rfl
    · intro _
      refine ⟨trivial, ?_, fun _ _ => ?_⟩
      · rintro _ (notMapped | isZero)
        · exact notMapped rfl
        · exact notZero isZero
      · apply passes_pokeAll (fun bytes => bytes.length = size.toNat)
          (fun _ _ => trivial)
        · intro _ _ _ length
          rw [List.length_set, length]
        · intro constructed constructedLength _
          apply passes_copyTo (fun bytes => bytes.length = size.toNat)
            (fun _ _ => trivial)
          · intro _ _ _ _ length
            rw [List.length_set, length]
          · intro created length isCreated
            have blocks : dbSizeMultipleRequirement ≤ size.toNat :=
              Nat.le_of_dvd (Nat.pos_of_ne_zero notZero)
                (Nat.dvd_of_mod_eq_zero isMultiple)
            have header : headerSize ≤ dbSizeMultipleRequirement := by decide
            rw [copiedTo_dbHeader environ
              (by rw [constructedLength]; exact header.trans blocks)]
              at isCreated
            apply passes_markDatabaseFile
            · intro readOnly
              cases readOnly
            · intro _ _ notLocked
              exact notLocked ⟨rfl, rfl⟩
            · intro _ _
              refine ⟨trivial, ?_⟩
              have marked := headed_set_mark environ 0 1 (constructed.drop 784)
              rw [← isCreated] at marked
              apply passes_useDatabaseFile
              · intro _
                refine ⟨rfl, constructed.drop 784, congrArg some marked, ?_⟩
                rw [← marked, List.length_set, length]
              · intro _ notMapped
                exact absurd rfl notMapped
              · intro notMapped
                exact absurd rfl notMapped
              · intro _ notMapped
                exact absurd rfl notMapped
              · intro _ notMapped
                exact absurd rfl notMapped
          · exact constructedLength
        · rw [resized_nil, List.length_replicate]
          rfl

/-- Every multiple of the block size can be the size of a file. -/
theorem produced_of_length (boost : SegmentManager) (environ : Environment)
    (isMultiple : bytes.length % dbSizeMultipleRequirement = 0)
    (notEmpty : bytes.length ≠ 0) (fits : bytes.length < 2 ^ 64) :
    Produced boost environ (some bytes) := by
  have size : (UInt64.ofNat bytes.length).toNat = bytes.length :=
    UInt64.toNat_ofNat_of_lt' fits
  have ends := (passes_created boost environ (size.symm ▸ isMultiple)
    (size.symm ▸ notEmpty)).ends trivial
  have start : Produced boost environ none := .absent
  have opened := start.opened grantingSystem
    (requestIn .mapped (UInt64.ofNat bytes.length))
  cases ran : openPinnableMappedFile boost environ grantingSystem
      (requestIn .mapped (UInt64.ofNat bytes.length)) ⟨none, []⟩ with
  | error fault final => exact (ends.of_error ran).2.elim
  | ok file final =>
      obtain ⟨_, _, rest, isCreated, length⟩ := ends.of_ok ran
      rw [ran] at opened
      change Produced boost environ final.current at opened
      rw [isCreated] at opened
      exact opened.used (by rw [length, size])

end Sizes

/-! ## Saving and loading -/

/-- The file is the memory when it is saved, and loading it gives the memory
again. -/
def SavesAndLoads (file memory : Bytes) : Prop :=
  ∃ final saved, saveDatabaseFile memory ⟨some file, []⟩ = .ok ⟨⟩ final ∧
    final.current = some saved ∧ saved = memory ∧
    ∀ signal, Uninterrupted signal saved.length →
      loadDatabaseFile signal saved = .ok memory

section SaveAndLoad

variable {file memory : Bytes}

theorem passes_saveDatabaseFile (whole : dbSizeMultipleRequirement ∣ file.length)
    (sameLength : memory.length = file.length) :
    Passes (fun _ => True) (saveDatabaseFile memory) (some file)
      (fun _ final => ∃ saved, final = some saved ∧
        SavedFrom memory file 0 saved)
      (fun _ _ => False) := by
  obtain ⟨blocks, isLength⟩ := whole
  apply passes_bind
  apply passes_fileBytes
  rw [← Nat.zero_mul dbSizeMultipleRequirement]
  apply passes_saveLoop (fun _ => True) (fun _ _ => trivial)
    (fun _ _ _ _ _ => trivial) sameLength blocks _ _ trivial
  · rw [isLength, Nat.zero_add, Nat.mul_comm]
  · intro saved _ savedFrom
    exact ⟨saved, rfl, savedFrom⟩

theorem savesAndLoads_iff (whole : dbSizeMultipleRequirement ∣ file.length)
    (sameLength : memory.length = file.length) :
    SavesAndLoads file memory ↔
      ∀ number, ZeroBlock memory number → ZeroBlock file number := by
  have ends := (passes_saveDatabaseFile whole sameLength).ends trivial
  cases ran : saveDatabaseFile memory ⟨some file, []⟩ with
  | error fault final => exact (ends.of_error ran).2.elim
  | ok value final =>
      obtain ⟨_, saved, isSaved, savedFrom⟩ := ends.of_ok ran
      rw [← savedFrom.eq_iff sameLength]
      constructor
      · rintro ⟨other, otherSaved, ranOther, isOther, isMemory, _⟩
        rw [ran] at ranOther
        cases ranOther
        rw [isSaved] at isOther
        cases isOther
        exact isMemory
      · rintro rfl
        refine ⟨final, saved, ran, isSaved, rfl, fun signal uninterrupted => ?_⟩
        apply loadDatabaseFile_ok_iff.mpr
        rw [sameLength] at uninterrupted ⊢
        exact ⟨rfl, whole, uninterrupted⟩

/-- Whatever requests were made before, a file that is saved is the memory, and
is loaded as the memory again, when no block of zeros in the memory has other
bytes in the file. -/
theorem saved_file_is_memory_iff (boost : SegmentManager)
    (environ : Environment) (file memory : Bytes)
    (produced : Produced boost environ (some file))
    (sameLength : memory.length = file.length) :
    SavesAndLoads file memory ↔
      ∀ number, ZeroBlock memory number → ZeroBlock file number :=
  savesAndLoads_iff (wholeBlocks_some_iff.mp produced.wholeBlocks) sameLength

/-- A file of two blocks: the header and zeros, and a block of one value. -/
def twoBlocks (value : UInt8) : Bytes :=
  smallFile 1 ++ List.replicate (dbSizeMultipleRequirement - headerSize) 0 ++
    List.replicate dbSizeMultipleRequirement value

theorem getElem?_twoBlocks (value : UInt8) {i : Nat}
    (isBehind : dbSizeMultipleRequirement ≤ i) :
    (twoBlocks value)[i]? = (List.replicate dbSizeMultipleRequirement value)[
      i - dbSizeMultipleRequirement]? := by
  have small : (smallFile 1).length = headerSize := by decide +kernel
  have first : (smallFile 1 ++
      List.replicate (dbSizeMultipleRequirement - headerSize) 0).length =
        dbSizeMultipleRequirement := by
    rw [List.length_append, List.length_replicate, small]
    rfl
  rw [twoBlocks, List.getElem?_append_right (by rw [first]; exact isBehind),
    first]

theorem twoBlocks_length (value : UInt8) :
    (twoBlocks value).length = 2 * dbSizeMultipleRequirement := by
  have small : (smallFile 1).length = headerSize := by decide +kernel
  rw [twoBlocks, List.length_append, List.length_append, List.length_replicate,
    List.length_replicate, small]
  rfl

theorem produced_twoBlocks (value : UInt8) :
    Produced sizeManager zeroEnvironment (some (twoBlocks value)) := by
  apply produced_of_length <;> rw [twoBlocks_length] <;> decide

theorem zeroBlock_twoBlocks {number : Nat} (notFirst : number ≠ 0) :
    ZeroBlock (twoBlocks 0) number := by
  intro value member
  obtain ⟨i, isNumber, isValue⟩ := mem_blockOf_iff.mp member
  have isBehind : dbSizeMultipleRequirement ≤ i := by
    apply Nat.le_of_not_lt
    intro before
    rw [Nat.div_eq_of_lt before] at isNumber
    exact notFirst isNumber.symm
  rw [getElem?_twoBlocks 0 isBehind] at isValue
  exact List.eq_of_mem_replicate (List.mem_of_getElem? isValue)

theorem not_zeroBlock_twoBlocks (value : UInt8) :
    ¬ ZeroBlock (twoBlocks value) 0 := by
  intro isZero
  have first : (0x45 : UInt8) ∈ blockOf (twoBlocks value) 0 :=
    mem_blockOf_iff.mpr ⟨0, Nat.zero_div _, rfl⟩
  cases isZero _ first

/-- A block of zeros that gets another value. -/
theorem saved_new_block_is_memory :
    SavesAndLoads (twoBlocks 0) (twoBlocks 1) := by
  apply (saved_file_is_memory_iff sizeManager zeroEnvironment _ _
    (produced_twoBlocks 0) (by rw [twoBlocks_length, twoBlocks_length])).mpr
  intro number isZero
  apply zeroBlock_twoBlocks
  rintro rfl
  exact not_zeroBlock_twoBlocks 1 isZero

/-- A block that becomes zeros keeps its old bytes in the file. -/
theorem saved_cleared_block_is_not_memory :
    Produced sizeManager zeroEnvironment (some (twoBlocks 1)) ∧
      (twoBlocks 0).length = (twoBlocks 1).length ∧
      ¬ SavesAndLoads (twoBlocks 1) (twoBlocks 0) := by
  have whole := wholeBlocks_some_iff.mp (produced_twoBlocks 1).wholeBlocks
  have sameLength : (twoBlocks 0).length = (twoBlocks 1).length := by
    rw [twoBlocks_length, twoBlocks_length]
  refine ⟨produced_twoBlocks 1, sameLength, ?_⟩
  rw [savesAndLoads_iff whole sameLength]
  intro zeros
  have isZero := zeros 1 (zeroBlock_twoBlocks Nat.one_ne_zero)
  have isOne : (1 : UInt8) ∈ blockOf (twoBlocks 1) 1 := by
    apply mem_blockOf_iff.mpr
    refine ⟨dbSizeMultipleRequirement, Nat.div_self blockSize_pos, ?_⟩
    rw [getElem?_twoBlocks 1 le_rfl, Nat.sub_self]
    exact List.getElem?_replicate_of_lt blockSize_pos
  cases isZero 1 isOne

end SaveAndLoad

end StateDatabase
