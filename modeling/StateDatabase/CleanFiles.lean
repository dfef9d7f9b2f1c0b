import Mathlib
import StateDatabase.Library.Runs
import StateDatabase.FileSizes

/-!
# Files that are marked as clean

A host opens the database for writing, uses it and closes it, and the process
can stop at any step of an open or a close.  A file with a valid header that is
marked as clean should hold the image of the database at its creation or at its
last close, and the segment should record its own size.

Three things break this.  A clean file is grown before it is marked as dirty.
A dirty file that cannot be loaded is marked as clean.  A close leaves old bytes
in the blocks that have become zeros.
-/

namespace StateDatabase

open Programs CrashPrograms Packing

/-! ## The segment manager -/

/-- What is relied on: the size field lies in every segment, and constructing
and growing a segment set it to the size of the segment. -/
structure SegmentManager.Lawful (boost : SegmentManager) : Prop where
  sizeInside : boost.sizeOffset + 8 ≤ dbSizeMultipleRequirement - headerSize
  construct_records : ∀ size, dbSizeMultipleRequirement - headerSize ≤ size →
    boost.Records (writeAll (boost.construct size) (List.replicate size 0)) size
  grow_records : ∀ contents extra,
    dbSizeMultipleRequirement - headerSize + extra ≤ contents.length →
    boost.Records contents (contents.length - extra) →
      boost.Records (writeAll (boost.grow contents extra) contents)
        contents.length

/-! ## The host -/

/-- The file, the process that has it open, and the image: the segment at the
creation or when the last close began. -/
structure Host where
  file : Option Bytes
  process : Option PinnableMappedFile
  image : Bytes

inductive HostEvent where
  /-- with the number of changes after which the process stops -/
  | opens (system : System) (request : OpenRequest) (stop : Option Nat)
  /-- the new contents of the segment -/
  | uses (contents : Bytes)
  | closes (system : System) (stop : Option Nat)
  | stops

/-- The content when the process stopped. -/
def contentAt (traced : Traced (Option Bytes)) : Option Nat → Option Bytes
  | none => traced.current
  | some changes => traced.contents.reverse.getD changes traced.current

/-- The segment of a new file. -/
def createdImage (boost : SegmentManager) (request : OpenRequest) : Bytes :=
  writeAll (boost.construct (request.sharedFileSize.toNat - headerSize))
    (List.replicate (request.sharedFileSize.toNat - headerSize) 0)

/-- The request with `writable` set. -/
def OpenRequest.forWriting (request : OpenRequest) : OpenRequest :=
  { request with writable := true }

/-- The file with other contents of the segment. -/
def withSegment (bytes contents : Bytes) : Bytes :=
  bytes.take headerSize ++ contents

/-- The bytes that a process works on. -/
def workedOn (file : Option Bytes) (process : PinnableMappedFile) : Bytes :=
  process.memory.getD (file.getD [])

namespace Host

variable (boost : SegmentManager) (environ : Environment)

def start : Host := { file := none, process := none, image := [] }

/-- A sequence of opens has at most one process that uses the file. -/
def opens (host : Host) (system : System) (request : OpenRequest)
    (stop : Option Nat) : Host :=
  match host.process with
  | some _ => host
  | none =>
      let image :=
        if host.file = none then createdImage boost request else host.image
      match stop, openPinnableMappedFile boost environ system
          request.forWriting ⟨host.file, []⟩ with
      | none, .ok process final =>
          { file := final.current, process := some process, image := image }
      | _, result =>
          { file := contentAt (left result) stop, process := none,
            image := image }

/-- The segment is changed within its size. -/
def uses (host : Host) (contents : Bytes) : Host :=
  match host.process with
  | none => host
  | some process =>
      let bytes := workedOn host.file process
      if contents.length = (segment bytes).length ∧
          boost.sizeField contents = boost.sizeField (segment bytes) then
        match process.memory with
        | some _ =>
            { host with
              process := some
                { process with memory := some (withSegment bytes contents) } }
        | none => { host with file := some (withSegment bytes contents) }
      else host

def closes (host : Host) (system : System) (stop : Option Nat) : Host :=
  match host.process with
  | none => host
  | some process =>
      { file := contentAt
          (left (closePinnableMappedFile system process ⟨host.file, []⟩)) stop
        process := none
        image := segment (workedOn host.file process) }

def next (host : Host) : HostEvent → Host
  | .opens system request stop => host.opens boost environ system request stop
  | .uses contents => host.uses boost contents
  | .closes system stop => host.closes system stop
  | .stops => { host with process := none }

def step (host : Host) (event : HostEvent) : Option Host :=
  some (host.next boost environ event)

end Host

/-! ## The property -/

/-- A clean file is complete. -/
def Complete (boost : SegmentManager) (environ : Environment) (image : Bytes)
    (file : Option Bytes) : Prop :=
  ∀ bytes, file = some bytes → ValidHeader environ bytes →
    dirtyByte bytes = 0 →
      boost.Records (segment bytes) (bytes.length - headerSize) ∧
        segment bytes = image

/-- An open does not reach the defects.  A clean file that is grown gets its
mark; a stop after that is the event `stops`.  A dirty file that gets the mark
records its size, and when it is not the image it is loaded. -/
structure OpenAllowed (boost : SegmentManager) (system : System)
    (request : OpenRequest) (stop : Option Nat) (image bytes : Bytes) :
    Prop where
  marked : dirtyByte bytes = 0 →
    bytes.length < request.sharedFileSize.toNat → system.resizeFile = none →
      stop = none ∧ system.mapFile = none ∧ system.Locks
  recorded : dirtyByte bytes ≠ 0 →
    (bytes.length < request.sharedFileSize.toNat →
      system.resizeFile = none) →
        system.mapFile = none → system.Locks →
          boost.Records (segment bytes) (bytes.length - headerSize)
  loaded : dirtyByte bytes ≠ 0 ∨
      bytes.length < request.sharedFileSize.toNat →
    (bytes.length < request.sharedFileSize.toNat →
      system.resizeFile = none) →
        system.mapFile = none → system.Locks → request.mode ≠ .mapped →
          system.signalSet = none →
            system.Loads request
                (max bytes.length request.sharedFileSize.toNat) ∨
              segment bytes = image ∧
                ¬ bytes.length < request.sharedFileSize.toNat

/-- The condition on the state before an event. -/
def Host.Allowed (boost : SegmentManager) (environ : Environment)
    (host : Host) : HostEvent → Prop
  | .opens system request stop => host.process = none → ∀ bytes,
      host.file = some bytes →
        Admitted environ system request.forWriting bytes →
          OpenAllowed boost system request.forWriting stop host.image bytes
  | .closes system _ => ∀ process memory bytes, host.process = some process →
      process.memory = some memory → host.file = some bytes →
        system.mapFile = none →
          ∀ number, ZeroBlock memory number → ZeroBlock bytes number
  | .uses _ => True
  | .stops => True

/-! ## Bytes of the header and the segment -/

section Bytes

variable {bytes : Bytes}

theorem segment_length (bytes : Bytes) :
    (segment bytes).length = bytes.length - headerSize :=
  List.length_drop

/-- A write to the header keeps the segment. -/
theorem segment_set_header {i : Nat} (inHeader : i < headerSize)
    (value : UInt8) : segment (bytes.set i value) = segment bytes := by
  rw [segment, List.drop_set, if_pos inHeader]
  rfl

theorem segment_set (i : Nat) (value : UInt8) :
    segment (bytes.set (headerSize + i) value) =
      (segment bytes).set i value := by
  rw [segment, List.drop_set, if_neg (by omega), Nat.add_sub_cancel_left]
  rfl

theorem dirtyByte_set_other {i : Nat} (other : i ≠ headerDirtyBitOffset)
    (value : UInt8) : dirtyByte (bytes.set i value) = dirtyByte bytes := by
  rw [dirtyByte, dirtyByte, List.getD_eq_getElem?_getD,
    List.getD_eq_getElem?_getD, List.getElem?_set_ne other]

theorem dirtyByte_set (inside : headerSize ≤ bytes.length) (value : UInt8) :
    dirtyByte (bytes.set headerDirtyBitOffset value) = value := by
  have isInside : headerDirtyBitOffset < bytes.length := by
    rw [headerSize] at inside
    rw [headerDirtyBitOffset]
    omega
  rw [dirtyByte, List.getD_eq_getElem?_getD, List.getElem?_set_self isInside]
  rfl

theorem segment_pokedAll (writes : List (Nat × UInt8)) :
    ∀ bytes : Bytes, segment (pokedAll headerSize writes bytes) =
      writeAll writes (segment bytes) := by
  induction writes with
  | nil =>
      intro bytes
      rfl
  | cons write rest inductionHypothesis =>
      intro bytes
      have tail := inductionHypothesis
        (bytes.set (headerSize + write.1) write.2)
      rw [segment_set] at tail
      exact tail

section WithSegment

variable {contents : Bytes}

theorem take_headerSize_length (long : headerSize ≤ bytes.length) :
    (bytes.take headerSize).length = headerSize := by
  rw [List.length_take, Nat.min_eq_left long]

theorem segment_withSegment (long : headerSize ≤ bytes.length) :
    segment (withSegment bytes contents) = contents :=
  List.drop_left' (take_headerSize_length long)

/-- Contents of the same size fit into the segment. -/
theorem withSegment_length
    (sameLength : contents.length = (segment bytes).length) :
    (withSegment bytes contents).length = bytes.length := by
  rw [segment_length] at sameLength
  rw [withSegment, List.length_append, List.length_take, sameLength]
  omega

theorem dirtyByte_withSegment (long : headerSize ≤ bytes.length) :
    dirtyByte (withSegment bytes contents) = dirtyByte bytes := by
  have inside : headerDirtyBitOffset < headerSize := by decide
  rw [dirtyByte, dirtyByte, List.getD_eq_getElem?_getD,
    List.getD_eq_getElem?_getD, withSegment, List.getElem?_append_left
      (by rw [take_headerSize_length long]; exact inside),
    List.getElem?_take, if_pos inside]

end WithSegment

/-- A file of whole blocks that is not empty has a header. -/
theorem long_of_wholeBlocks (whole : dbSizeMultipleRequirement ∣ bytes.length)
    (notEmpty : bytes.length ≠ 0) :
    dbSizeMultipleRequirement ≤ bytes.length :=
  Nat.le_of_dvd (Nat.pos_of_ne_zero notEmpty) whole

end Bytes

/-! ## Opening -/

/-- An open file is marked as dirty and records its size, and so does the memory
that it was loaded to. -/
structure Held (boost : SegmentManager) (bytes : Bytes)
    (process : PinnableMappedFile) : Prop where
  long : headerSize ≤ bytes.length
  dirty : dirtyByte bytes ≠ 0
  writable : process.writable = true
  recorded : boost.Records (segment bytes) (bytes.length - headerSize)
  memory : ∀ memory, process.memory = some memory →
    memory.length = bytes.length ∧ dirtyByte memory ≠ 0 ∧
      boost.sizeField (segment memory) = boost.sizeField (segment bytes)

/-- What holds at every step. -/
def StepSound (boost : SegmentManager) (environ : Environment) (image : Bytes)
    (file : Option Bytes) : Prop :=
  Complete boost environ image file ∧ WholeBlocks file

/-- What an open that succeeds leaves. -/
def Opened (boost : SegmentManager) (sound : Option Bytes → Prop)
    (process : PinnableMappedFile) (file : Option Bytes) : Prop :=
  sound file ∧ ∃ bytes, file = some bytes ∧ Held boost bytes process

/-- A property of files of whole blocks that the steps of an open keep: it asks
nothing as long as the id is not written, and no more of a file that records its
size than to be the image or marked as dirty. -/
structure KeptByOpens (boost : SegmentManager) (image : Bytes)
    (sound : Option Bytes → Prop) : Prop where
  otherId : ∀ bytes, WholeBlocks (some bytes) → bytes[0]? ≠ some 0x45 →
    sound (some bytes)
  isImage : ∀ bytes, WholeBlocks (some bytes) →
    boost.Records (segment bytes) (bytes.length - headerSize) →
      segment bytes = image → sound (some bytes)
  isDirty : ∀ bytes, WholeBlocks (some bytes) →
    boost.Records (segment bytes) (bytes.length - headerSize) →
      dirtyByte bytes ≠ 0 → sound (some bytes)

/-- The file of an open for writing before the lock is taken. -/
structure GrownFrom (boost : SegmentManager) (size : Nat)
    (bytes grown : Bytes) : Prop where
  length : grown.length = max bytes.length size
  mark : dirtyByte grown = dirtyByte bytes
  whole : WholeBlocks (some grown)
  recorded : boost.Records (segment bytes) (bytes.length - headerSize) →
    boost.Records (segment grown) (grown.length - headerSize)
  same : ¬ bytes.length < size → grown = bytes

section Open

variable {boost : SegmentManager} {environ : Environment} {image : Bytes}
  {system : System} {request : OpenRequest} {bytes : Bytes}
  {sound always : Option Bytes → Prop}

theorem complete_none : Complete boost environ image none := by
  intro bytes isNone
  cases isNone

theorem complete_of_dirty (dirty : dirtyByte bytes ≠ 0) :
    Complete boost environ image (some bytes) := by
  rintro _ ⟨⟩ _ isClean
  exact absurd isClean dirty

theorem complete_of_image
    (recorded : boost.Records (segment bytes) (bytes.length - headerSize))
    (isImage : segment bytes = image) :
    Complete boost environ image (some bytes) := by
  rintro _ ⟨⟩ _ _
  exact ⟨recorded, isImage⟩

theorem not_validHeader_of_otherId (otherId : bytes[0]? ≠ some 0x45) :
    ¬ ValidHeader environ bytes := by
  intro header
  have first : (bytes.take 8)[0]? = (littleEndian 8 headerId)[0]? := by
    rw [header.id]
  rw [List.getElem?_take, if_pos (by decide)] at first
  exact otherId first

/-- Nothing is asked of a file whose id is not written. -/
theorem complete_of_otherId (otherId : bytes[0]? ≠ some 0x45) :
    Complete boost environ image (some bytes) := by
  rintro _ ⟨⟩ header _
  exact absurd header (not_validHeader_of_otherId otherId)

theorem zeros_otherId (size : Nat) :
    (resized size [])[0]? ≠ some 0x45 := by
  rw [resized_nil, List.getElem?_replicate]
  split <;> decide

/-- The mark keeps the segment and the size. -/
theorem records_set_mark {value : UInt8}
    (recorded : boost.Records (segment bytes) (bytes.length - headerSize)) :
    boost.Records (segment (bytes.set headerDirtyBitOffset value))
      ((bytes.set headerDirtyBitOffset value).length - headerSize) := by
  rw [segment_set_header (by decide), List.length_set]
  exact recorded

theorem stepSound_keptByOpens :
    KeptByOpens boost image (StepSound boost environ image) where
  otherId := fun _ whole otherId => ⟨complete_of_otherId otherId, whole⟩
  isImage := fun _ whole recorded isImage =>
    ⟨complete_of_image recorded isImage, whole⟩
  isDirty := fun _ whole _ dirty => ⟨complete_of_dirty dirty, whole⟩

/-- The image is marked as dirty and as clean again. -/
theorem KeptByOpens.remarked (kept : KeptByOpens boost image sound)
    (whole : WholeBlocks (some bytes))
    (recorded : boost.Records (segment bytes) (bytes.length - headerSize))
    (isImage : segment bytes = image) :
    sound (some ((bytes.set headerDirtyBitOffset 1).set
      headerDirtyBitOffset 0)) := by
  apply kept.isImage _ (wholeBlocks_set (wholeBlocks_set whole))
  · exact records_set_mark (records_set_mark recorded)
  · rw [segment_set_header (by decide), segment_set_header (by decide), isImage]

/-- The contents between the steps may be any that are allowed. -/
theorem passes_markAndUse (kept : KeptByOpens boost image sound)
    (weaker : ∀ file, sound file → always file)
    (writable : request.writable = true) (long : headerSize ≤ bytes.length)
    (whole : WholeBlocks (some bytes))
    (recorded : system.Locks →
      boost.Records (segment bytes) (bytes.length - headerSize))
    (refused : ¬ system.Locks → sound (some bytes))
    (loaded : system.Locks → request.mode ≠ .mapped →
      system.signalSet = none → system.Loads request bytes.length ∨
        sound (some ((bytes.set headerDirtyBitOffset 1).set
          headerDirtyBitOffset 0))) :
    Passes always (markDatabaseFile system request) (some bytes)
      (fun _ marked => Passes always (useDatabaseFile system request) marked
        (Opened boost sound) (fun _ final => sound final))
      (fun _ final => sound final) := by
  apply passes_markDatabaseFile
  · intro readOnly
    rw [writable] at readOnly
    cases readOnly
  · intro _ _ notLocked
    exact refused notLocked
  · intro _ locks
    have dirty : dirtyByte (bytes.set headerDirtyBitOffset 1) ≠ 0 := by
      rw [dirtyByte_set long]
      decide
    have length : (bytes.set headerDirtyBitOffset 1).length = bytes.length :=
      List.length_set ..
    have isRecorded : boost.Records
        (segment (bytes.set headerDirtyBitOffset 1))
        ((bytes.set headerDirtyBitOffset 1).length - headerSize) :=
      records_set_mark (recorded locks)
    have marked : sound (some (bytes.set headerDirtyBitOffset 1)) :=
      kept.isDirty _ (wholeBlocks_set whole) isRecorded dirty
    have opened : ∀ {process : PinnableMappedFile}, process.writable = true →
        (∀ memory, process.memory = some memory →
          memory = bytes.set headerDirtyBitOffset 1) →
            Opened boost sound process
              (some (bytes.set headerDirtyBitOffset 1)) := by
      intro process isWritable isLoaded
      refine ⟨marked, _, rfl, length.symm ▸ long, dirty, isWritable,
        isRecorded, fun memory isMemory => ?_⟩
      rw [isLoaded memory isMemory]
      exact ⟨rfl, dirty, rfl⟩
    refine ⟨weaker _ marked, ?_⟩
    apply passes_useDatabaseFile
    · intro _
      apply opened writable
      intro memory isMemory
      cases isMemory
    · intro _ _ _
      exact marked
    · intro _ _
      apply opened writable
      intro memory isMemory
      cases isMemory
      rfl
    · intro fault notMapped signals notLoads _
      rw [if_pos writable]
      rw [length] at notLoads
      have cleaned := (loaded locks notMapped signals).resolve_left notLoads
      exact ⟨weaker _ cleaned, cleaned⟩
    · intro _ _ _ _
      exact marked

theorem resized_eq_append {size : Nat} (larger : bytes.length < size) :
    resized size bytes = bytes ++ List.replicate (size - bytes.length) 0 := by
  rw [resized, List.take_of_length_le larger.le]

/-- Growing the file keeps the header. -/
theorem dirtyByte_append (long : headerSize ≤ bytes.length) (added : Bytes) :
    dirtyByte (bytes ++ added) = dirtyByte bytes := by
  have inside : headerDirtyBitOffset < bytes.length := by
    rw [headerSize] at long
    rw [headerDirtyBitOffset]
    omega
  rw [dirtyByte, dirtyByte, List.getD_eq_getElem?_getD,
    List.getD_eq_getElem?_getD, List.getElem?_append_left inside]

theorem segment_append (long : headerSize ≤ bytes.length) (added : Bytes) :
    segment (bytes ++ added) = segment bytes ++ added :=
  List.drop_append_of_le_length long

theorem sizeField_append {contents : Bytes}
    (inside : boost.sizeOffset + 8 ≤ contents.length) (added : Bytes) :
    boost.sizeField (contents ++ added) = boost.sizeField contents := by
  have enough : 8 ≤ (contents.drop boost.sizeOffset).length := by
    rw [List.length_drop]
    omega
  rw [SegmentManager.sizeField, SegmentManager.sizeField,
    List.drop_append_of_le_length (by omega),
    List.take_append_of_le_length enough]

/-- A grown segment records its new size. -/
theorem grown_records (lawful : boost.Lawful) {size : Nat}
    (blocks : dbSizeMultipleRequirement ≤ bytes.length)
    (larger : bytes.length < size)
    (recorded : boost.Records (segment bytes) (bytes.length - headerSize)) :
    boost.Records
      (segment (pokedAll headerSize
        (boost.grow (segment (resized size bytes)) (size - bytes.length))
        (resized size bytes)))
      (size - headerSize) := by
  have header : headerSize ≤ dbSizeMultipleRequirement := by decide
  have inside := lawful.sizeInside
  have length : (segment (resized size bytes)).length = size - headerSize := by
    rw [segment_length, resized_length bytes larger]
  have oldRecorded : boost.Records (segment (resized size bytes))
      (bytes.length - headerSize) := by
    rw [SegmentManager.Records, resized_eq_append larger,
      segment_append (by omega), sizeField_append]
    · exact recorded
    · rw [segment_length]
      omega
  have oldSize : (segment (resized size bytes)).length -
      (size - bytes.length) = bytes.length - headerSize := by
    rw [length]
    omega
  rw [segment_pokedAll, ← length]
  apply lawful.grow_records
  · rw [length]
    omega
  · rw [oldSize]
    exact oldRecorded

/-- Growing keeps the mark and records the new size. -/
theorem passes_growToSize (lawful : boost.Lawful) {size : Nat}
    {post : PUnit → Option Bytes → Prop} {fail : Fault → Option Bytes → Prop}
    (isMultiple : size % dbSizeMultipleRequirement = 0)
    (long : headerSize ≤ bytes.length) (whole : WholeBlocks (some bytes))
    (failed : ∀ fault, fail fault (some bytes))
    (growing : bytes.length < size → system.resizeFile = none →
      ∀ grown, WholeBlocks (some grown) → dirtyByte grown = dirtyByte bytes →
        always (some grown) ∧
          (system.mapFile ≠ none → ∀ fault, fail fault (some grown)))
    (ready : (bytes.length < size → system.resizeFile = none) →
      system.mapFile = none → ∀ grown, GrownFrom boost size bytes grown →
        post ⟨⟩ (some grown)) :
    Passes always (growDatabaseFile boost system size bytes) (some bytes) post
      fail := by
  apply passes_growDatabaseFile long
  · intro text _ _
    exact failed _
  · intro larger isResized
    have length := resized_length bytes larger
    have blocks : dbSizeMultipleRequirement ≤ bytes.length := by
      apply long_of_wholeBlocks (wholeBlocks_some_iff.mp whole)
      intro isEmpty
      rw [isEmpty] at long
      cases long
    have resizedWhole := wholeBlocks_resized isMultiple bytes larger.le
    have resizedMark : dirtyByte (resized size bytes) = dirtyByte bytes := by
      rw [resized_eq_append larger, dirtyByte_append long]
    obtain ⟨allowed, isRefused⟩ :=
      growing larger isResized _ resizedWhole resizedMark
    refine ⟨allowed, fun _ notMapped => isRefused notMapped _,
      fun isMapped => ?_⟩
    apply passes_pokeAll (fun grown => grown.length = size ∧
      dirtyByte grown = dirtyByte bytes ∧ WholeBlocks (some grown))
    · rintro grown ⟨_, mark, grownWhole⟩
      exact (growing larger isResized grown grownWhole mark).1
    · rintro write _ grown ⟨grownLength, mark, grownWhole⟩
      refine ⟨?_, ?_, wholeBlocks_set grownWhole⟩
      · rw [List.length_set, grownLength]
      · rw [dirtyByte_set_other]
        · exact mark
        · rw [headerSize, headerDirtyBitOffset]
          omega
    · rintro grown ⟨grownLength, mark, grownWhole⟩ isGrown
      apply ready (fun _ => isResized) isMapped
      refine ⟨?_, mark, grownWhole, ?_,
        fun notLarger => absurd larger notLarger⟩
      · rw [grownLength, max_eq_right larger.le]
      · intro recorded
        rw [grownLength, isGrown]
        exact grown_records lawful blocks larger recorded
    · exact ⟨length, resizedMark, resizedWhole⟩
  · intro text _ _
    exact failed _
  · intro notLarger isMapped
    apply ready (fun larger => absurd larger notLarger) isMapped
    exact ⟨(max_eq_left (Nat.le_of_not_lt notLarger)).symm, rfl, whole, id,
      fun _ => rfl⟩

/-- What an open needs of a file that is there. -/
theorem passes_openExisting_sound (lawful : boost.Lawful)
    (writable : request.writable = true) {stop : Option Nat}
    (starts : StepSound boost environ image (some bytes))
    (allowed : Admitted environ system request bytes →
      OpenAllowed boost system request stop image bytes) :
    Passes (fun file => stop = none ∨ StepSound boost environ image file)
      (openPinnableMappedFile boost environ system request) (some bytes)
      (Opened boost (StepSound boost environ image))
      (fun _ final => StepSound boost environ image final) := by
  obtain ⟨complete, whole⟩ := starts
  apply passes_openExisting
  · intro _ _
    exact ⟨complete, whole⟩
  · intro _ readOnly
    rw [writable] at readOnly
    cases readOnly
  · intro admitted _
    have openAllowed := allowed admitted
    apply passes_growToSize lawful admitted.accepted.size admitted.header.long
      whole
    · intro _
      exact ⟨complete, whole⟩
    · intro larger isResized grown grownWhole mark
      by_cases isClean : dirtyByte bytes = 0
      · -- all that counts is how such an open ends
        have isMarked := openAllowed.marked isClean larger isResized
        exact ⟨Or.inl isMarked.1,
          fun notMapped => absurd isMarked.2.1 notMapped⟩
      · rw [← mark] at isClean
        have isSound : StepSound boost environ image (some grown) :=
          ⟨complete_of_dirty isClean, grownWhole⟩
        exact ⟨Or.inr isSound, fun _ _ => isSound⟩
    · intro resizes isMapped grown isGrown
      have recorded (locks : system.Locks) :
          boost.Records (segment bytes) (bytes.length - headerSize) := by
        by_cases isClean : dirtyByte bytes = 0
        · exact (complete bytes rfl admitted.header isClean).1
        · exact openAllowed.recorded isClean resizes isMapped locks
      apply passes_markAndUse stepSound_keptByOpens (fun _ => Or.inr) writable
        _ isGrown.whole (fun locks => isGrown.recorded (recorded locks))
      · intro notLocked
        by_cases larger : bytes.length < request.sharedFileSize.toNat
        · refine ⟨complete_of_dirty ?_, isGrown.whole⟩
          rw [isGrown.mark]
          intro isClean
          exact notLocked
            (openAllowed.marked isClean larger (resizes larger)).2.2
        · rw [isGrown.same larger]
          exact ⟨complete, whole⟩
      · intro locks notMapped signals
        have remarked (notLarger : ¬ bytes.length <
              request.sharedFileSize.toNat) (isImage : segment bytes = image) :
            StepSound boost environ image (some ((grown.set
              headerDirtyBitOffset 1).set headerDirtyBitOffset 0)) := by
          rw [isGrown.same notLarger]
          exact stepSound_keptByOpens.remarked whole (recorded locks) isImage
        by_cases isAsked : dirtyByte bytes ≠ 0 ∨
            bytes.length < request.sharedFileSize.toNat
        · rw [isGrown.length]
          exact (openAllowed.loaded isAsked resizes isMapped locks notMapped
            signals).imp_right fun ⟨isImage, notLarger⟩ =>
              remarked notLarger isImage
        · rw [not_or, not_not] at isAsked
          exact Or.inr (remarked isAsked.2
            (complete bytes rfl admitted.header isAsked.1).2)
      · rw [isGrown.length]
        exact admitted.header.long.trans (le_max_left _ _)

/-- A new file gets its header when its segment is complete. -/
theorem passes_openAbsent_kept (lawful : boost.Lawful)
    (writable : request.writable = true)
    (kept : KeptByOpens boost (createdImage boost request) sound)
    (absent : sound none) :
    Passes sound (openPinnableMappedFile boost environ system request) none
      (Opened boost sound) (fun _ final => sound final) := by
  have emptyWhole : WholeBlocks (some []) := by
    rw [wholeBlocks_some_iff]
    exact dvd_zero _
  have empty := kept.otherId [] emptyWhole (by decide)
  apply passes_openAbsent
  · intro _ _
    exact absent
  · intro accepted _
    have zerosWhole := wholeBlocks_resized accepted.size [] (Nat.zero_le _)
    have zeros := kept.otherId _ zerosWhole (zeros_otherId _)
    apply passes_createDatabaseFile empty
    · intro _ _
      exact empty
    · intro _
      refine ⟨zeros, fun _ _ => zeros, fun _ notEmpty => ?_⟩
      have header : headerSize ≤ dbSizeMultipleRequirement := by decide
      have blocks : dbSizeMultipleRequirement ≤
          request.sharedFileSize.toNat :=
        Nat.le_of_dvd (Nat.pos_of_ne_zero notEmpty)
          (Nat.dvd_of_mod_eq_zero accepted.size)
      have zerosLength : (resized request.sharedFileSize.toNat []).length =
          request.sharedFileSize.toNat := by
        rw [resized_nil, List.length_replicate]
      have recorded : boost.Records (createdImage boost request)
          (request.sharedFileSize.toNat - headerSize) := by
        apply lawful.construct_records
        omega
      apply passes_pokeAll (fun constructed =>
        constructed.length = request.sharedFileSize.toNat ∧
          constructed[0]? ≠ some 0x45 ∧ WholeBlocks (some constructed))
      · rintro constructed ⟨_, otherId, constructedWhole⟩
        exact kept.otherId _ constructedWhole otherId
      · rintro write _ constructed ⟨length, otherId, constructedWhole⟩
        refine ⟨?_, ?_, wholeBlocks_set constructedWhole⟩
        · rw [List.length_set, length]
        · rw [List.getElem?_set_ne (by rw [headerSize]; omega)]
          exact otherId
      · rintro constructed ⟨length, _, constructedWhole⟩ isConstructed
        have isImage : segment constructed = createdImage boost request := by
          rw [isConstructed, segment_pokedAll, resized_nil, segment,
            List.drop_replicate]
          rfl
        apply passes_copyTo (fun created =>
          created.length = request.sharedFileSize.toNat ∧
            segment created = createdImage boost request ∧
              WholeBlocks (some created))
        · rintro created ⟨createdLength, isCreated, createdWhole⟩
          apply kept.isImage _ createdWhole _ isCreated
          rw [isCreated, createdLength]
          exact recorded
        · rintro i value isValue created ⟨createdLength, isCreated, whole⟩
          have inHeader : i < 784 := by
            rw [← dbHeader_length environ]
            exact (List.getElem?_eq_some_iff.mp isValue).1
          rw [Nat.zero_add]
          refine ⟨?_, ?_, wholeBlocks_set whole⟩
          · rw [List.length_set, createdLength]
          · rw [segment_set_header (by rw [headerSize]; omega), isCreated]
        · rintro created ⟨createdLength, isCreated, createdWhole⟩ _
          have createdRecords : boost.Records (segment created)
              (created.length - headerSize) := by
            rw [isCreated, createdLength]
            exact recorded
          apply passes_markAndUse kept (fun _ => id) writable _ createdWhole
            (fun _ => createdRecords)
          · intro _
            exact kept.isImage _ createdWhole createdRecords isCreated
          · intro _ _ _
            exact Or.inr (kept.remarked createdWhole createdRecords isCreated)
          · rw [createdLength]
            exact header.trans blocks
        · exact ⟨length, isImage, constructedWhole⟩
      · exact ⟨zerosLength, zeros_otherId _, zerosWhole⟩

end Open

/-! ## Closing -/

section Close

variable {boost : SegmentManager} {environ : Environment} {image : Bytes}
  {system : System} {process : PinnableMappedFile} {bytes memory : Bytes}

/-- Saving memory that is marked as dirty keeps the file dirty. -/
theorem passes_save_sound {post : PUnit → Option Bytes → Prop}
    {fail : Fault → Option Bytes → Prop} (long : headerSize ≤ bytes.length)
    (whole : WholeBlocks (some bytes)) (dirty : dirtyByte bytes ≠ 0)
    (sameLength : memory.length = bytes.length)
    (memoryDirty : dirtyByte memory ≠ 0)
    (zeros : ∀ number, ZeroBlock memory number → ZeroBlock bytes number)
    (holds : post ⟨⟩ (some memory)) :
    Passes (StepSound boost environ image) (saveDatabaseFile memory)
      (some bytes) post fail := by
  obtain ⟨blocks, isLength⟩ := wholeBlocks_some_iff.mp whole
  apply passes_bind
  apply passes_fileBytes
  rw [← Nat.zero_mul dbSizeMultipleRequirement]
  apply passes_saveLoop (fun file =>
    headerSize ≤ file.length ∧ dirtyByte file ≠ 0 ∧ WholeBlocks (some file))
  · rintro file ⟨_, fileDirty, fileWhole⟩
    exact ⟨complete_of_dirty fileDirty, fileWhole⟩
  · rintro i value isValue file ⟨fileLong, fileDirty, fileWhole⟩
    refine ⟨?_, ?_, wholeBlocks_set fileWhole⟩
    · rw [List.length_set]
      exact fileLong
    · by_cases isMark : i = headerDirtyBitOffset
      · -- the memory was loaded after the file had been marked
        rw [isMark] at isValue ⊢
        rw [dirtyByte_set fileLong]
        rw [dirtyByte, List.getD_eq_getElem?_getD, isValue] at memoryDirty
        exact memoryDirty
      · rw [dirtyByte_set_other isMark]
        exact fileDirty
  · exact sameLength
  · rw [isLength, Nat.zero_add, Nat.mul_comm]
  · intro saved _ savedFrom
    rw [(savedFrom.eq_iff sameLength).mpr zeros]
    exact holds
  · exact ⟨long, dirty, whole⟩

/-- A close marks the file as clean when it is the image. -/
theorem passes_close_sound (held : Held boost bytes process)
    (whole : WholeBlocks (some bytes))
    (zeros : ∀ memory, process.memory = some memory → system.mapFile = none →
      ∀ number, ZeroBlock memory number → ZeroBlock bytes number) :
    Passes (StepSound boost environ (segment (workedOn (some bytes) process)))
      (closePinnableMappedFile system process) (some bytes)
      (fun _ _ => True) (fun _ _ => True) := by
  rw [closePinnableMappedFile, if_pos held.writable]
  cases isMemory : process.memory with
  | none =>
      have worked : workedOn (some bytes) process = bytes := by
        rw [workedOn, isMemory]
        rfl
      rw [worked]
      apply passes_bind
      apply passes_pure
      apply passes_poke _ trivial
      refine ⟨complete_of_image (records_set_mark held.recorded) ?_,
        wholeBlocks_set whole⟩
      exact segment_set_header (by decide) _
  | some memory =>
      have worked : workedOn (some bytes) process = memory := by
        rw [workedOn, isMemory]
        rfl
      obtain ⟨sameLength, memoryDirty, sameSize⟩ := held.memory memory isMemory
      rw [worked]
      apply passes_bind
      apply passes_bind
      apply passes_throwIf
      · intro _
        trivial
      · intro isMapped
        apply passes_save_sound held.long whole held.dirty sameLength
          memoryDirty (zeros memory isMemory (not_not.mp isMapped))
        apply passes_poke _ trivial
        refine ⟨complete_of_image (records_set_mark ?_) ?_, ?_⟩
        · have recorded := held.recorded
          rw [SegmentManager.Records] at recorded ⊢
          rw [sameSize, sameLength, recorded]
        · exact segment_set_header (by decide) _
        · exact wholeBlocks_set (whole.of_length sameLength)

end Close

/-! ## Runs -/

/-- What holds of the file, and a process that has it open holds it. -/
structure Host.Keeps (boost : SegmentManager) (sound : Option Bytes → Prop)
    (host : Host) : Prop where
  file : sound host.file
  held : ∀ process, host.process = some process →
    ∃ bytes, host.file = some bytes ∧ Held boost bytes process

/-- What every state of an allowed run satisfies. -/
def Host.Sound (boost : SegmentManager) (environ : Environment)
    (host : Host) : Prop :=
  host.Keeps boost (StepSound boost environ host.image)

theorem contentAt_mem (traced : Traced (Option Bytes)) (stop : Option Nat) :
    contentAt traced stop ∈ traced.contents := by
  cases stop with
  | none => exact traced.current_mem
  | some changes =>
      rw [contentAt, List.getD_eq_getElem?_getD]
      cases found : traced.contents.reverse[changes]? with
      | none => exact traced.current_mem
      | some content =>
          exact List.mem_reverse.mp (List.mem_of_getElem? found)

namespace Host

variable {boost : SegmentManager} {environ : Environment} {host : Host}
  {system : System} {stop : Option Nat} {sound : Option Bytes → Prop}

theorem keeps_closed {file : Option Bytes} (image : Bytes)
    (holds : sound file) :
    Keeps boost sound { file := file, process := none, image := image } where
  file := holds
  held := by
    intro process isProcess
    cases isProcess

/-- What is left by a process that stops or closes the file. -/
theorem keeps_of_left {α : Type} (image : Bytes) {file : Option Bytes}
    {program : FileM α} {post : α → Option Bytes → Prop}
    {fail : Fault → Option Bytes → Prop}
    (passes : Passes sound program file post fail) (starts : sound file) :
    Keeps boost sound
      { file := contentAt (left (program ⟨file, []⟩)) stop, process := none,
        image := image } :=
  keeps_closed image (passes.left starts _ (contentAt_mem _ stop))

/-- Where no process can stop, only the end of the open counts. -/
theorem opens_keeps {always : Option Bytes → Prop} {request : OpenRequest}
    (isClosed : host.process = none)
    (atStop : stop ≠ none → ∀ file, always file → sound file)
    (starts : always host.file)
    (passes : Passes always
      (openPinnableMappedFile boost environ system request.forWriting)
      host.file (Opened boost sound) (fun _ final => sound final)) :
    (host.opens boost environ system request stop).Keeps boost sound := by
  have ends := passes.ends starts
  rw [Host.opens, isClosed]
  dsimp only
  cases stop with
  | some changes =>
      apply keeps_closed
      apply atStop (Option.some_ne_none changes)
      exact passes.left starts _ (contentAt_mem _ _)
  | none =>
      cases ran : openPinnableMappedFile boost environ system
          request.forWriting ⟨host.file, []⟩ with
      | error fault final => exact keeps_closed _ (ends.of_error ran).2
      | ok process final =>
          obtain ⟨holds, held⟩ := (ends.of_ok ran).2
          refine ⟨holds, ?_⟩
          rintro _ ⟨⟩
          exact held

theorem opens_image {request : OpenRequest} (isClosed : host.process = none) :
    (host.opens boost environ system request stop).image =
      if host.file = none then createdImage boost request else host.image := by
  rw [Host.opens, isClosed]
  dsimp only
  split <;> rfl

/-- An open creates the file or uses the one that is there. -/
theorem Keeps.opens {always : Option Bytes → Prop} {request : OpenRequest}
    (keeps : host.Keeps boost sound) (isClosed : host.process = none)
    (lawful : boost.Lawful)
    (absent : host.file = none →
      KeptByOpens boost (createdImage boost request) sound)
    (atStop : stop ≠ none → ∀ file, always file → sound file)
    (weaker : ∀ file, sound file → always file)
    (existing : ∀ bytes, host.file = some bytes →
      Passes always
        (openPinnableMappedFile boost environ system request.forWriting)
        (some bytes) (Opened boost sound) (fun _ final => sound final)) :
    (host.opens boost environ system request stop).Keeps boost sound := by
  cases isFile : host.file with
  | none =>
      have holds := keeps.file
      apply opens_keeps isClosed (fun _ _ => id) holds
      rw [isFile] at holds ⊢
      exact passes_openAbsent_kept lawful rfl (absent isFile) holds
  | some bytes =>
      apply opens_keeps isClosed atStop (weaker _ keeps.file)
      rw [isFile]
      exact existing bytes isFile

theorem uses_image (contents : Bytes) :
    (host.uses boost contents).image = host.image := by
  rw [Host.uses]
  split
  · rfl
  · dsimp only
    split
    · split <;> rfl
    · rfl

/-- The header and the size stay as they are. -/
theorem Keeps.uses (keeps : host.Keeps boost sound)
    (whole : WholeBlocks host.file)
    (ofHeld : ∀ bytes process, WholeBlocks (some bytes) →
      Held boost bytes process → sound (some bytes)) (contents : Bytes) :
    (host.uses boost contents).Keeps boost sound := by
  cases isOpen : host.process with
  | none =>
      rw [Host.uses, isOpen]
      exact keeps
  | some process =>
      obtain ⟨bytes, isFile, held⟩ := keeps.held process isOpen
      rw [Host.uses, isOpen]
      dsimp only
      split
      · rename_i fits
        obtain ⟨sameLength, sameSize⟩ := fits
        cases isMemory : process.memory with
        | some memory =>
            have worked : workedOn host.file process = memory := by
              rw [workedOn, isMemory]
              rfl
            rw [worked] at sameLength sameSize ⊢
            obtain ⟨memoryLength, memoryDirty, memorySize⟩ :=
              held.memory memory isMemory
            have long := held.long
            rw [← memoryLength] at long
            refine ⟨keeps.file, ?_⟩
            rintro _ ⟨⟩
            refine ⟨bytes, isFile, held.long, held.dirty, held.writable,
              held.recorded, ?_⟩
            rintro _ ⟨⟩
            rw [withSegment_length sameLength, dirtyByte_withSegment long,
              segment_withSegment long, sameSize]
            exact ⟨memoryLength, memoryDirty, memorySize⟩
        | none =>
            have worked : workedOn host.file process = bytes := by
              rw [workedOn, isMemory, isFile]
              rfl
            rw [worked] at sameLength sameSize ⊢
            rw [isFile] at whole
            have length := withSegment_length sameLength
            have dirty := held.dirty
            rw [← dirtyByte_withSegment held.long] at dirty
            have heldStill :
                Held boost (withSegment bytes contents) process := by
              refine ⟨?_, dirty, held.writable, ?_, ?_⟩
              · rw [length]
                exact held.long
              · rw [SegmentManager.Records, segment_withSegment held.long,
                  length, sameSize]
                exact held.recorded
              · intro memory isOtherMemory
                cases isMemory.symm.trans isOtherMemory
            refine ⟨ofHeld _ process (whole.of_length length) heldStill, ?_⟩
            rintro _ ⟨⟩
            exact ⟨_, rfl, heldStill⟩
      · exact keeps

/-! ## Clean files -/

theorem start_sound : start.Sound boost environ :=
  keeps_closed [] ⟨complete_none, wholeBlocks_none⟩

theorem Sound.opens (sound : host.Sound boost environ) (lawful : boost.Lawful)
    {request : OpenRequest}
    (allowed : host.Allowed boost environ (.opens system request stop)) :
    (host.opens boost environ system request stop).Sound boost environ := by
  cases isOpen : host.process with
  | some process =>
      rw [Host.opens, isOpen]
      exact sound
  | none =>
      rw [Host.Sound, opens_image isOpen]
      split
      · rename_i isFile
        have isSound : host.Keeps boost
            (StepSound boost environ (createdImage boost request)) := by
          refine ⟨?_, sound.held⟩
          rw [isFile]
          exact ⟨complete_none, wholeBlocks_none⟩
        apply isSound.opens isOpen lawful (fun _ => stepSound_keptByOpens)
          (fun _ _ => id) (fun _ => id)
        intro bytes isBytes
        rw [isFile] at isBytes
        cases isBytes
      · rename_i notAbsent
        apply Keeps.opens sound isOpen lawful
          (fun isFile => absurd isFile notAbsent)
          (fun notStopped _ isSound => isSound.resolve_left notStopped)
          (fun _ => Or.inr)
        intro bytes isFile
        have starts := sound.file
        rw [isFile] at starts
        exact passes_openExisting_sound lawful rfl starts
          (allowed isOpen bytes isFile)

theorem Sound.uses (sound : host.Sound boost environ) (contents : Bytes) :
    (host.uses boost contents).Sound boost environ := by
  rw [Host.Sound, uses_image]
  apply Keeps.uses sound sound.file.2
  intro bytes process whole held
  exact ⟨complete_of_dirty held.dirty, whole⟩

theorem Sound.closes (sound : host.Sound boost environ)
    (allowed : host.Allowed boost environ (.closes system stop)) :
    (host.closes system stop).Sound boost environ := by
  cases isOpen : host.process with
  | none =>
      rw [Host.closes, isOpen]
      exact sound
  | some process =>
      obtain ⟨bytes, isFile, held⟩ := sound.held process isOpen
      have whole := sound.file.2
      rw [isFile] at whole
      rw [Host.closes, isOpen, isFile]
      exact keeps_of_left _
        (passes_close_sound held whole fun memory isMemory isMapped =>
          allowed process memory bytes isOpen isMemory isFile isMapped)
        ⟨complete_of_dirty held.dirty, whole⟩

/-- Every allowed event keeps the invariant. -/
theorem Sound.next (sound : host.Sound boost environ) (lawful : boost.Lawful)
    {event : HostEvent} (allowed : host.Allowed boost environ event) :
    (host.next boost environ event).Sound boost environ := by
  cases event with
  | opens system request stop => exact sound.opens lawful allowed
  | uses contents => exact sound.uses contents
  | closes system stop => exact sound.closes allowed
  | stops => exact keeps_closed _ sound.file

end Host

/-- After every run whose events do not reach the defects, a file that is marked
as clean records its size and is the image of the database. -/
theorem clean_file_complete (boost : SegmentManager) (environ : Environment)
    (lawful : boost.Lawful) (events : List HostEvent) (final : Host)
    (allowed : Runs.AllowedFrom (Host.step boost environ)
      (Host.Allowed boost environ) Host.start events)
    (finished : Runs.run (Host.step boost environ) Host.start events =
      some final) :
    Complete boost environ final.image final.file := by
  have sound := Runs.run_preserves (Host.Sound boost environ)
    (fun host event next sound isAllowed stepped => by
      cases stepped
      exact sound.next lawful isAllowed)
    Host.start_sound allowed finished
  exact sound.file.1

/-! ## The recorded size -/

/-- A file with a valid header records its size, clean or dirty. -/
def RecordsSize (boost : SegmentManager) (environ : Environment)
    (file : Option Bytes) : Prop :=
  WholeBlocks file ∧ ∀ bytes, file = some bytes → ValidHeader environ bytes →
    boost.Records (segment bytes) (bytes.length - headerSize)

/-- An open that grows the file maps it and is not stopped. -/
def Host.GrowsWhole (environ : Environment) (host : Host) : HostEvent → Prop
  | .opens system request stop => host.process = none → ∀ bytes,
      host.file = some bytes →
        Admitted environ system request.forWriting bytes →
          bytes.length < request.sharedFileSize.toNat →
            system.resizeFile = none → stop = none ∧ system.mapFile = none
  | .closes _ _ => True
  | .uses _ => True
  | .stops => True

section RecordedSize

variable {boost : SegmentManager} {environ : Environment} {image : Bytes}
  {system : System} {request : OpenRequest} {stop : Option Nat}
  {process : PinnableMappedFile} {bytes memory : Bytes}

theorem recordsSize_of_records (whole : WholeBlocks (some bytes))
    (recorded : boost.Records (segment bytes) (bytes.length - headerSize)) :
    RecordsSize boost environ (some bytes) := by
  refine ⟨whole, ?_⟩
  rintro _ ⟨⟩ _
  exact recorded

theorem recordsSize_keptByOpens :
    KeptByOpens boost image (RecordsSize boost environ) where
  otherId := by
    intro bytes whole otherId
    refine ⟨whole, ?_⟩
    rintro _ ⟨⟩ header
    exact absurd header (not_validHeader_of_otherId otherId)
  isImage := fun _ whole recorded _ => recordsSize_of_records whole recorded
  isDirty := fun _ whole recorded _ => recordsSize_of_records whole recorded

theorem passes_openExisting_records (lawful : boost.Lawful)
    (writable : request.writable = true)
    (starts : RecordsSize boost environ (some bytes))
    (grows : Admitted environ system request bytes →
      bytes.length < request.sharedFileSize.toNat →
        system.resizeFile = none → stop = none ∧ system.mapFile = none) :
    Passes (fun file => stop = none ∨ RecordsSize boost environ file)
      (openPinnableMappedFile boost environ system request) (some bytes)
      (Opened boost (RecordsSize boost environ))
      (fun _ final => RecordsSize boost environ final) := by
  apply passes_openExisting
  · intro _ _
    exact starts
  · intro _ readOnly
    rw [writable] at readOnly
    cases readOnly
  · intro admitted _
    apply passes_growToSize lawful admitted.accepted.size admitted.header.long
      starts.1
    · intro _
      exact starts
    · intro larger isResized _ _ _
      obtain ⟨notStopped, isMapped⟩ := grows admitted larger isResized
      exact ⟨Or.inl notStopped, fun notMapped => absurd isMapped notMapped⟩
    · intro _ _ grown isGrown
      have recorded := isGrown.recorded (starts.2 bytes rfl admitted.header)
      -- the image does not count here
      have kept : KeptByOpens boost (segment grown)
        (RecordsSize boost environ) := recordsSize_keptByOpens
      apply passes_markAndUse kept (fun _ => Or.inr) writable _ isGrown.whole
        (fun _ => recorded)
      · intro _
        exact recordsSize_of_records isGrown.whole recorded
      · intro _ _ _
        exact Or.inr (kept.remarked isGrown.whole recorded rfl)
      · rw [isGrown.length]
        exact admitted.header.long.trans (le_max_left _ _)

/-- A byte of memory with the same size field leaves the field as it is. -/
theorem sizeField_set {i : Nat} {value : UInt8}
    (same : boost.sizeField (segment memory) = boost.sizeField (segment bytes))
    (isValue : memory[i]? = some value) (inFile : i < bytes.length) :
    boost.sizeField (segment (bytes.set i value)) =
      boost.sizeField (segment bytes) := by
  have sameByte := congrArg (fun field : Bytes =>
    field[i - (headerSize + boost.sizeOffset)]?) same
  simp only [SegmentManager.sizeField, segment, List.getElem?_take,
    List.getElem?_drop] at sameByte
  apply List.ext_getElem?
  intro j
  simp only [SegmentManager.sizeField, segment, List.getElem?_take,
    List.getElem?_drop]
  by_cases inField : j < 8
  · rw [if_pos inField, if_pos inField]
    by_cases isByte : headerSize + (boost.sizeOffset + j) = i
    · have isIndex : i - (headerSize + boost.sizeOffset) = j := by omega
      rw [isIndex, if_pos inField, if_pos inField, isByte, isValue] at sameByte
      rw [isByte, List.getElem?_set_self inFile]
      exact sameByte
    · rw [List.getElem?_set_ne (Ne.symm isByte)]
  · rw [if_neg inField, if_neg inField]

/-- A close does not touch the size. -/
theorem passes_close_records (held : Held boost bytes process)
    (whole : WholeBlocks (some bytes)) :
    Passes (RecordsSize boost environ)
      (closePinnableMappedFile system process) (some bytes)
      (fun _ _ => True) (fun _ _ => True) := by
  rw [closePinnableMappedFile, if_pos held.writable]
  apply passes_bind
  cases isMemory : process.memory with
  | none =>
      apply passes_pure
      apply passes_poke _ trivial
      exact recordsSize_of_records (wholeBlocks_set whole)
        (records_set_mark held.recorded)
  | some memory =>
      obtain ⟨sameLength, _, sameSize⟩ := held.memory memory isMemory
      obtain ⟨blocks, isLength⟩ := wholeBlocks_some_iff.mp whole
      have recorded {file : Bytes} (length : file.length = bytes.length)
          (same : boost.sizeField (segment file) =
            boost.sizeField (segment bytes)) :
          boost.Records (segment file) (file.length - headerSize) := by
        rw [SegmentManager.Records, same, length]
        exact held.recorded
      apply passes_bind
      apply passes_throwIf
      · intro _
        trivial
      · intro _
        apply passes_bind
        apply passes_fileBytes
        rw [← Nat.zero_mul dbSizeMultipleRequirement]
        apply passes_saveLoop (fun file => file.length = bytes.length ∧
          boost.sizeField (segment file) = boost.sizeField (segment bytes))
        · rintro file ⟨length, same⟩
          exact recordsSize_of_records (whole.of_length length)
            (recorded length same)
        · rintro i value isValue file ⟨length, same⟩
          have inMemory := (List.getElem?_eq_some_iff.mp isValue).1
          rw [List.length_set, sizeField_set (sameSize.trans same.symm) isValue
            (by omega)]
          exact ⟨length, same⟩
        · exact sameLength
        · rw [isLength, Nat.zero_add, Nat.mul_comm]
        · rintro saved ⟨length, same⟩ _
          apply passes_poke _ trivial
          exact recordsSize_of_records
            (wholeBlocks_set (whole.of_length length))
            (records_set_mark (recorded length same))
        · exact ⟨rfl, rfl⟩

end RecordedSize

theorem Host.Keeps.next_records {boost : SegmentManager}
    {environ : Environment} {host : Host} {event : HostEvent}
    (keeps : host.Keeps boost (RecordsSize boost environ))
    (lawful : boost.Lawful) (allowed : host.GrowsWhole environ event) :
    (host.next boost environ event).Keeps boost
      (RecordsSize boost environ) := by
  cases event with
  | opens system request stop =>
      cases isOpen : host.process with
      | some process =>
          rw [Host.next, Host.opens, isOpen]
          exact keeps
      | none =>
          apply keeps.opens isOpen lawful (fun _ => recordsSize_keptByOpens)
            (fun notStopped _ records => records.resolve_left notStopped)
            (fun _ => Or.inr)
          intro bytes isFile
          have starts := keeps.file
          rw [isFile] at starts
          exact passes_openExisting_records lawful rfl starts
            (allowed isOpen bytes isFile)
  | uses contents =>
      apply keeps.uses keeps.file.1
      intro bytes process whole held
      exact recordsSize_of_records whole held.recorded
  | closes system stop =>
      cases isOpen : host.process with
      | none =>
          rw [Host.next, Host.closes, isOpen]
          exact keeps
      | some process =>
          obtain ⟨bytes, isFile, held⟩ := keeps.held process isOpen
          have records := keeps.file
          rw [isFile] at records
          rw [Host.next, Host.closes, isOpen, isFile]
          exact Host.keeps_of_left _ (passes_close_records held records.1)
            records
  | stops => exact Host.keeps_closed _ keeps.file

/-- In a run in which every growth is completed, no file with a valid header
records another size, and so every open finds what it asks of a dirty file. -/
theorem files_record_their_size (boost : SegmentManager)
    (environ : Environment) (lawful : boost.Lawful) (events : List HostEvent)
    (final : Host)
    (allowed : Runs.AllowedFrom (Host.step boost environ)
      (Host.GrowsWhole environ) Host.start events)
    (finished : Runs.run (Host.step boost environ) Host.start events =
      some final) :
    RecordsSize boost environ final.file := by
  have starts : Host.start.Keeps boost (RecordsSize boost environ) := by
    apply Host.keeps_closed
    refine ⟨wholeBlocks_none, ?_⟩
    intro bytes isNone
    cases isNone
  have keeps := Runs.run_preserves
    (fun host => host.Keeps boost (RecordsSize boost environ))
    (fun host event next keeps isAllowed stepped => by
      cases stepped
      exact keeps.next_records lawful isAllowed)
    starts allowed finished
  exact keeps.file

/-! ## Two runs -/

section TwoRuns

variable {boost : SegmentManager} {environ : Environment} {host : Host}
  {system : System}

/-- An open that succeeds. -/
theorem opens_of_passes {request : OpenRequest}
    {post : PinnableMappedFile → Option Bytes → Prop}
    (isClosed : host.process = none)
    (passes : Passes (fun _ => True)
      (openPinnableMappedFile boost environ system request.forWriting)
      host.file post (fun _ _ => False)) :
    ∃ process file, post process file ∧
      host.next boost environ (.opens system request none) =
        { file := file, process := some process,
          image := if host.file = none then createdImage boost request
            else host.image } := by
  have ends := passes.ends trivial
  rw [Host.next, Host.opens, isClosed]
  dsimp only
  cases ran : openPinnableMappedFile boost environ system request.forWriting
      ⟨host.file, []⟩ with
  | error fault final => exact (ends.of_error ran).2.elim
  | ok process final => exact ⟨process, _, (ends.of_ok ran).2, rfl⟩

/-- A close that succeeds. -/
theorem closes_of_passes {process : PinnableMappedFile}
    {post : PUnit → Option Bytes → Prop} (isOpen : host.process = some process)
    (passes : Passes (fun _ => True) (closePinnableMappedFile system process)
      host.file post (fun _ _ => False)) :
    ∃ file, post ⟨⟩ file ∧
      host.next boost environ (.closes system none) =
        { file := file, process := none,
          image := segment (workedOn host.file process) } := by
  have ends := passes.ends trivial
  rw [Host.next, Host.closes, isOpen]
  dsimp only
  cases ran : closePinnableMappedFile system process ⟨host.file, []⟩ with
  | error fault final => exact (ends.of_error ran).2.elim
  | ok value final => exact ⟨_, (ends.of_ok ran).2, rfl⟩

theorem writeAll_mapIdx (data : Bytes) : ∀ (offset : Nat) (bytes : Bytes),
    writeAll (data.mapIdx fun i value => (i + offset, value)) bytes =
      copiedTo offset data bytes := by
  induction data with
  | nil =>
      intro offset bytes
      rfl
  | cons value rest inductionHypothesis =>
      intro offset bytes
      have shifted : (fun i (value : UInt8) => (i + 1 + offset, value)) =
          fun i value => (i + (offset + 1), value) := by
        funext i value
        rw [Nat.add_assoc, Nat.add_comm 1]
      have tail := inductionHypothesis (offset + 1) (bytes.set offset value)
      rw [← shifted] at tail
      rw [List.mapIdx_cons, writeAll, List.foldl_cons, Nat.zero_add]
      exact tail

theorem sizeManager_records (size : Nat) {contents : Bytes}
    (long : 8 ≤ contents.length) :
    sizeManager.Records
      (writeAll ((littleEndian 8 size).mapIdx Prod.mk) contents) size := by
  have written := writeAll_mapIdx (littleEndian 8 size) 0 contents
  rw [copiedTo_zero (by rw [littleEndian_length]; exact long)] at written
  change (writeAll ((littleEndian 8 size).mapIdx Prod.mk) contents).take 8 =
    littleEndian 8 size
  rw [show ((littleEndian 8 size).mapIdx Prod.mk) =
    (littleEndian 8 size).mapIdx fun i value => (i + 0, value) from rfl,
    written]
  exact List.take_left' (littleEndian_length ..)

theorem sizeManager_lawful : sizeManager.Lawful where
  sizeInside := by decide
  construct_records := by
    intro size atLeast
    apply sizeManager_records
    have enough : 8 ≤ dbSizeMultipleRequirement - headerSize := by decide
    rw [List.length_replicate]
    omega
  grow_records := by
    intro contents extra atLeast _
    apply sizeManager_records
    have enough : 8 ≤ dbSizeMultipleRequirement - headerSize := by decide
    omega

theorem requestIn_forWriting (mode : MapMode) (size : UInt64) :
    (requestIn mode size).forWriting = requestIn mode size := rfl

/-- The host after it has created a file in mapped mode. -/
theorem created_host (size : UInt64)
    (isMultiple : size.toNat % dbSizeMultipleRequirement = 0)
    (notZero : size.toNat ≠ 0) :
    ∃ rest image, (headed zeroEnvironment 1 rest).length = size.toNat ∧
      Host.start.next sizeManager zeroEnvironment
          (.opens grantingSystem (requestIn .mapped size) none) =
        { file := some (headed zeroEnvironment 1 rest),
          process := some { writable := true, memory := none },
          image := image } := by
  have passes := passes_created sizeManager zeroEnvironment isMultiple notZero
  rw [← requestIn_forWriting] at passes
  have isClosed : Host.start.process = none := rfl
  obtain ⟨process, file, ⟨isProcess, rest, isFile, length⟩, isNext⟩ :=
    opens_of_passes isClosed passes
  rw [isProcess, isFile] at isNext
  exact ⟨rest, _, length, isNext⟩

/-- In mapped mode a close changes the mark only. -/
theorem closed_mapped (boost : SegmentManager) (environ : Environment)
    (system : System) (bytes image : Bytes) :
    Host.next boost environ
        { file := some bytes,
          process := some { writable := true, memory := none },
          image := image }
        (.closes system none) =
      { file := some (bytes.set headerDirtyBitOffset 0), process := none,
        image := segment bytes } :=
  rfl

/-- A database is created and closed. -/
theorem created_file_complete :
    ∃ final bytes,
      Runs.run (Host.step sizeManager zeroEnvironment) Host.start
        [.opens grantingSystem (requestIn .mapped 1048576) none,
          .closes grantingSystem none] = some final ∧
      final.file = some bytes ∧ ValidHeader zeroEnvironment bytes ∧
      dirtyByte bytes = 0 ∧
      sizeManager.Records (segment bytes) (bytes.length - headerSize) ∧
      segment bytes = final.image := by
  obtain ⟨rest, image, length, isCreated⟩ :=
    created_host 1048576 (by decide) (by decide)
  have long : headerSize ≤ (headed zeroEnvironment 0 rest).length := by
    rw [← headed_set_mark zeroEnvironment 1, List.length_set, length]
    decide
  have isClosed := closed_mapped sizeManager zeroEnvironment grantingSystem
    (headed zeroEnvironment 1 rest) image
  rw [headed_set_mark, ← isCreated] at isClosed
  have allowed : Runs.AllowedFrom (Host.step sizeManager zeroEnvironment)
      (Host.Allowed sizeManager zeroEnvironment) Host.start
      [.opens grantingSystem (requestIn .mapped 1048576) none,
        .closes grantingSystem none] := by
    refine ⟨?_, fun next stepped => ⟨?_, fun _ _ => trivial⟩⟩
    · intro _ bytes isBytes
      cases isBytes
    · have isNext := (Option.some.inj stepped).symm.trans isCreated
      intro process memory bytes isProcess isMemory
      rw [isNext] at isProcess
      rw [← Option.some.inj isProcess] at isMemory
      cases isMemory
  refine ⟨_, headed zeroEnvironment 0 rest, rfl, ?_, ?_⟩
  · rw [isClosed]
  · have header := headed_validHeader zeroEnvironment 0 long
    have clean : dirtyByte (headed zeroEnvironment 0 rest) = 0 := rfl
    have complete := clean_file_complete sizeManager zeroEnvironment
      sizeManager_lawful _ _ allowed rfl (headed zeroEnvironment 0 rest)
      (by rw [isClosed]) header clean
    exact ⟨header, clean, complete⟩

/-- A segment of two blocks less the header, the second one of one value. -/
def blockContents (value : UInt8) : Bytes :=
  littleEndian 8 (2 * dbSizeMultipleRequirement - headerSize) ++
    List.replicate (dbSizeMultipleRequirement - headerSize - 8) 0 ++
      List.replicate dbSizeMultipleRequirement value

theorem blockContents_length (value : UInt8) :
    (blockContents value).length =
      2 * dbSizeMultipleRequirement - headerSize := by
  rw [blockContents, List.length_append, List.length_append,
    littleEndian_length, List.length_replicate, List.length_replicate]
  rfl

theorem sizeField_blockContents (value : UInt8) :
    sizeManager.sizeField (blockContents value) =
      littleEndian 8 (2 * dbSizeMultipleRequirement - headerSize) := by
  rw [blockContents, List.append_assoc]
  exact List.take_left' (littleEndian_length ..)

theorem blockContents_ne : blockContents 1 ≠ blockContents 0 := by
  intro same
  have sameBlock := List.append_cancel_left same
  rw [List.replicate_inj] at sameBlock
  rcases sameBlock.2 with isEmpty | isZero
  · cases isEmpty
  · cases isZero

/-- The first block of a file with these contents. -/
def firstBlock (bytes : Bytes) : Bytes :=
  bytes.take headerSize ++
    (littleEndian 8 (2 * dbSizeMultipleRequirement - headerSize) ++
      List.replicate (dbSizeMultipleRequirement - headerSize - 8) 0)

theorem firstBlock_length {bytes : Bytes} (long : headerSize ≤ bytes.length) :
    (firstBlock bytes).length = dbSizeMultipleRequirement := by
  rw [firstBlock, List.length_append, take_headerSize_length long,
    List.length_append, littleEndian_length, List.length_replicate]
  rfl

theorem withSegment_blockContents (bytes : Bytes) (value : UInt8) :
    withSegment bytes (blockContents value) =
      firstBlock bytes ++ List.replicate dbSizeMultipleRequirement value := by
  rw [withSegment, blockContents, firstBlock]
  exact (List.append_assoc _ _ _).symm

theorem firstBlock_withSegment {bytes contents : Bytes}
    (long : headerSize ≤ bytes.length) :
    firstBlock (withSegment bytes contents) = firstBlock bytes := by
  rw [firstBlock, firstBlock, withSegment,
    List.take_left' (take_headerSize_length long)]

/-- Nothing is saved when the first block is the same and the rest is zeros. -/
theorem SavedFrom.eq_file {front old saved : Bytes} {count : Nat}
    (isBlock : front.length = dbSizeMultipleRequirement)
    (savedFrom : SavedFrom (front ++ List.replicate count 0) (front ++ old) 0
      saved) : saved = front ++ old := by
  apply List.ext_getElem?
  intro i
  rw [savedFrom.bytes i]
  by_cases inFront : i < front.length
  · rw [List.getElem?_append_left inFront, List.getElem?_append_left inFront,
      ite_self]
  · have isZero : ZeroBlock (front ++ List.replicate count 0)
        (i / dbSizeMultipleRequirement) := by
      intro value member
      obtain ⟨j, sameNumber, isValue⟩ := mem_blockOf_iff.mp member
      have behind : front.length ≤ j := by
        rw [isBlock] at inFront ⊢
        apply Nat.le_of_not_lt
        intro before
        rw [Nat.div_eq_of_lt before] at sameNumber
        have positive := Nat.div_pos (Nat.le_of_not_lt inFront) blockSize_pos
        omega
      rw [List.getElem?_append_right behind] at isValue
      exact List.eq_of_mem_replicate (List.mem_of_getElem? isValue)
    rw [if_neg fun both => both.2 isZero]

theorem ValidHeader.set_mark {bytes : Bytes} (header : ValidHeader environ bytes)
    (value : UInt8) :
    ValidHeader environ (bytes.set headerDirtyBitOffset value) where
  long := by
    rw [List.length_set]
    exact header.long
  id := by
    rw [List.take_set, List.set_eq_of_length_le]
    · exact header.id
    · rw [List.length_take]
      exact Nat.min_le_left _ _
  environ := by
    rw [List.drop_set, if_pos (by decide)]
    exact header.environ

theorem ValidHeader.withSegment {bytes contents : Bytes}
    (header : ValidHeader environ bytes)
    (sameLength : contents.length = (segment bytes).length) :
    ValidHeader environ (withSegment bytes contents) where
  long := by
    rw [withSegment_length sameLength]
    exact header.long
  id := by
    have enough : 8 ≤ (bytes.take headerSize).length := by
      rw [take_headerSize_length header.long]
      decide
    rw [StateDatabase.withSegment, List.take_append_of_le_length enough,
      List.take_take]
    exact header.id
  environ := by
    have enough : 9 ≤ (bytes.take headerSize).length := by
      rw [take_headerSize_length header.long]
      decide
    have rest : 775 ≤ ((bytes.take headerSize).drop 9).length := by
      rw [List.length_drop, take_headerSize_length header.long]
      decide
    rw [StateDatabase.withSegment, List.drop_append_of_le_length enough,
      List.take_append_of_le_length rest, List.drop_take, List.take_take]
    exact header.environ

/-- A file of whole blocks can be used again in every mode. -/
theorem passes_reopened {boost : SegmentManager} {request : OpenRequest}
    {bytes : Bytes} (noSize : request.sharedFileSize = 0)
    (dirtyAllowed : request.allowDirty = true)
    (noPages : request.hugepagePaths = [])
    (header : ValidHeader environ bytes)
    (whole : dbSizeMultipleRequirement ∣ bytes.length) :
    Passes (fun _ => True)
      (openPinnableMappedFile boost environ grantingSystem request.forWriting)
      (some bytes)
      (fun process final =>
        process =
          { writable := true
            memory := if request.mode = .mapped then none
              else some (bytes.set headerDirtyBitOffset 1) } ∧
        final = some (bytes.set headerDirtyBitOffset 1))
      (fun _ _ => False) := by
  have size : request.forWriting.sharedFileSize.toNat = 0 := by
    rw [OpenRequest.forWriting, noSize]
    rfl
  have pages : request.forWriting.hugepagePaths = [] := noPages
  apply passes_openExisting
  · intro _ notAdmitted
    apply notAdmitted
    refine ⟨⟨?_, Or.inl noPages, Or.inl rfl⟩, rfl, header, Or.inl dirtyAllowed⟩
    rw [size]
    rfl
  · intro _ readOnly
    cases readOnly
  · intro _ _
    apply passes_growDatabaseFile header.long
    · intro _ _ notResized
      exact notResized rfl
    · intro larger
      rw [size] at larger
      exact absurd larger (Nat.not_lt_zero _)
    · intro _ _ notMapped
      exact notMapped rfl
    · intro _ _
      apply passes_markDatabaseFile
      · intro readOnly
        cases readOnly
      · intro _ _ notLocked
        exact notLocked ⟨rfl, rfl⟩
      · intro _ _
        have loads : grantingSystem.Loads request.forWriting
            (bytes.set headerDirtyBitOffset 1).length := by
          rw [List.length_set]
          refine ⟨?_, whole, fun number _ _ => (Option.some_ne_none number).symm,
            fun _ => rfl⟩
          rw [System.GrantsRegion, pages]
          split <;> rfl
        refine ⟨trivial, ?_⟩
        apply passes_useDatabaseFile
        · intro isMapped
          have mapped : request.mode = .mapped := isMapped
          rw [if_pos mapped]
          exact ⟨rfl, rfl⟩
        · intro _ _ noSignals
          exact noSignals rfl
        · intro notMapped _
          have other : request.mode ≠ .mapped := notMapped
          rw [if_neg other]
          exact ⟨rfl, rfl⟩
        · intro _ _ _ notLoads
          exact absurd loads notLoads
        · intro _ _ notLoads
          exact absurd loads notLoads

/-- In heap mode the file is copied to the memory. -/
theorem opened_heap (boost : SegmentManager) (image : Bytes) {bytes : Bytes}
    (header : ValidHeader environ bytes)
    (whole : dbSizeMultipleRequirement ∣ bytes.length) :
    Host.next boost environ
        { file := some bytes, process := none, image := image }
        (.opens grantingSystem (requestIn .heap 0) none) =
      { file := some (bytes.set headerDirtyBitOffset 1),
        process := some
          { writable := true,
            memory := some (bytes.set headerDirtyBitOffset 1) },
        image := image } := by
  have isClosed : (Host.mk (some bytes) none image).process = none := rfl
  have passes : Passes (fun _ => True)
      (openPinnableMappedFile boost environ grantingSystem
        (requestIn .heap 0).forWriting) (some bytes) _ _ :=
    passes_reopened rfl rfl rfl header whole
  obtain ⟨process, file, ⟨isProcess, isFile⟩, isNext⟩ :=
    opens_of_passes isClosed passes
  rw [isProcess, isFile] at isNext
  exact isNext

/-- A close that has only zeros to save behind the first block. -/
theorem closed_heap (boost : SegmentManager) (environ : Environment)
    (image : Bytes) {front old : Bytes} {count : Nat}
    (isBlock : front.length = dbSizeMultipleRequirement)
    (isCount : old.length = count)
    (whole : dbSizeMultipleRequirement ∣ (front ++ old).length) :
    Host.next boost environ
        { file := some (front ++ old),
          process := some
            { writable := true,
              memory := some (front ++ List.replicate count 0) },
          image := image }
        (.closes grantingSystem none) =
      { file := some ((front ++ old).set headerDirtyBitOffset 0),
        process := none,
        image := segment (front ++ List.replicate count 0) } := by
  have sameLength : (front ++ List.replicate count (0 : UInt8)).length =
      (front ++ old).length := by
    rw [List.length_append, List.length_append, List.length_replicate, isCount]
  have passes : Passes (fun _ => True)
      (closePinnableMappedFile grantingSystem
        { writable := true, memory := some (front ++ List.replicate count 0) })
      (some (front ++ old))
      (fun _ final =>
        final = some ((front ++ old).set headerDirtyBitOffset 0))
      (fun _ _ => False) := by
    rw [closePinnableMappedFile, if_pos rfl]
    apply passes_bind
    apply passes_bind
    apply passes_throwIf
    · intro notMapped
      exact notMapped rfl
    · intro _
      apply (passes_saveDatabaseFile whole sameLength).imp _
        fun _ _ failed => failed
      rintro _ _ ⟨saved, rfl, savedFrom⟩
      rw [savedFrom.eq_file isBlock]
      exact passes_poke trivial rfl
  have isOpen : (Host.mk (some (front ++ old))
      (some { writable := true,
              memory := some (front ++ List.replicate count 0) })
      image).process = some
        { writable := true,
          memory := some (front ++ List.replicate count 0) } := rfl
  obtain ⟨file, isFile, isNext⟩ := closes_of_passes isOpen passes
  rw [isFile] at isNext
  exact isNext

theorem used_mapped (boost : SegmentManager) (environ : Environment)
    (image : Bytes) {bytes contents : Bytes}
    (sameLength : contents.length = (segment bytes).length)
    (sameSize : boost.sizeField contents = boost.sizeField (segment bytes)) :
    Host.next boost environ
        { file := some bytes,
          process := some { writable := true, memory := none },
          image := image }
        (.uses contents) =
      { file := some (withSegment bytes contents),
        process := some { writable := true, memory := none },
        image := image } :=
  if_pos ⟨sameLength, sameSize⟩

theorem used_heap (boost : SegmentManager) (environ : Environment)
    (image bytes : Bytes) {memory contents : Bytes}
    (sameLength : contents.length = (segment memory).length)
    (sameSize : boost.sizeField contents = boost.sizeField (segment memory)) :
    Host.next boost environ
        { file := some bytes,
          process := some { writable := true, memory := some memory },
          image := image }
        (.uses contents) =
      { file := some bytes,
        process := some
          { writable := true, memory := some (withSegment memory contents) },
        image := image } :=
  if_pos ⟨sameLength, sameSize⟩

theorem run_of_next {event : HostEvent} {rest : List HostEvent}
    {next final : Host} (isNext : host.next boost environ event = next)
    (finished : Runs.run (Host.step boost environ) next rest = some final) :
    Runs.run (Host.step boost environ) host (event :: rest) = some final := by
  rw [Runs.run_cons, Host.step, isNext]
  exact finished

/-- A database is filled in mapped mode and cleared in heap mode. -/
def clearingRun : List HostEvent :=
  [.opens grantingSystem (requestIn .mapped 2097152) none,
    .uses (blockContents 1),
    .closes grantingSystem none,
    .opens grantingSystem (requestIn .heap 0) none,
    .uses (blockContents 0),
    .closes grantingSystem none]

/-- The file is marked as clean and holds what was cleared. -/
theorem cleared_file_not_complete :
    ∃ final bytes,
      Runs.run (Host.step sizeManager zeroEnvironment) Host.start clearingRun =
        some final ∧
      final.file = some bytes ∧ ValidHeader zeroEnvironment bytes ∧
      dirtyByte bytes = 0 ∧ segment bytes = blockContents 1 ∧
      final.image = blockContents 0 ∧ segment bytes ≠ final.image := by
  obtain ⟨rest, image, length, isCreated⟩ :=
    created_host 2097152 (by decide) (by decide)
  have twoBlocks : (headed zeroEnvironment 1 rest).length =
      2 * dbSizeMultipleRequirement := length
  have long : headerSize ≤ (headed zeroEnvironment 1 rest).length := by
    rw [twoBlocks]
    decide
  have header := headed_validHeader zeroEnvironment 1 long
  have contentsLength : ∀ value, (blockContents value).length =
      (segment (headed zeroEnvironment 1 rest)).length := by
    intro value
    rw [segment_length, twoBlocks, blockContents_length]
  -- the segment manager has recorded the size
  have createAllowed : Host.start.Allowed sizeManager zeroEnvironment
      (.opens grantingSystem (requestIn .mapped 2097152) none) := by
    intro _ bytes isBytes
    cases isBytes
  have sound := Host.start_sound.next sizeManager_lawful createAllowed
  rw [isCreated] at sound
  obtain ⟨bytes, isBytes, held⟩ := sound.held _ rfl
  rw [← Option.some.inj isBytes] at held
  have sameSize : ∀ value, sizeManager.sizeField (blockContents value) =
      sizeManager.sizeField (segment (headed zeroEnvironment 1 rest)) := by
    intro value
    have recorded := held.recorded
    rw [SegmentManager.Records, twoBlocks] at recorded
    rw [sizeField_blockContents, recorded]
  have isFilled := used_mapped sizeManager zeroEnvironment image
    (contentsLength 1) (sameSize 1)
  generalize isFile : withSegment (headed zeroEnvironment 1 rest)
    (blockContents 1) = filled at isFilled
  have filledHeader : ValidHeader zeroEnvironment filled := by
    rw [← isFile]
    exact header.withSegment (contentsLength 1)
  have filledSegment : segment filled = blockContents 1 := by
    rw [← isFile, segment_withSegment long]
  have filledLength : filled.length = 2 * dbSizeMultipleRequirement := by
    rw [← isFile, withSegment_length (contentsLength 1), twoBlocks]
  have isMarked : (filled.set headerDirtyBitOffset 0).set headerDirtyBitOffset 1
      = filled := by
    have inside : headerDirtyBitOffset < filled.length := by
      rw [filledLength]
      decide
    rw [List.set_set, set_eq_self_iff inside, ← isFile]
    exact dirtyByte_withSegment long
  have isClosed := closed_mapped sizeManager zeroEnvironment grantingSystem
    filled image
  have filledWhole : dbSizeMultipleRequirement ∣ filled.length := by
    rw [filledLength]
    exact Nat.dvd_mul_left _ _
  have isOpened := opened_heap sizeManager (segment filled)
    (filledHeader.set_mark 0) (by rw [List.length_set]; exact filledWhole)
  rw [isMarked] at isOpened
  have clearedLength : (blockContents 0).length = (segment filled).length := by
    rw [filledSegment, blockContents_length, blockContents_length]
  have clearedSize : sizeManager.sizeField (blockContents 0) =
      sizeManager.sizeField (segment filled) := by
    rw [filledSegment, sizeField_blockContents, sizeField_blockContents]
  have isCleared := used_heap sizeManager zeroEnvironment (segment filled)
    filled clearedLength clearedSize
  have clearedSegment : segment (withSegment filled (blockContents 0)) =
      blockContents 0 := segment_withSegment filledHeader.long
  have isFront : firstBlock filled =
      firstBlock (headed zeroEnvironment 1 rest) := by
    rw [← isFile, firstBlock_withSegment long]
  have frontLength := firstBlock_length long
  rw [withSegment_blockContents, isFront] at isCleared clearedSegment
  rw [withSegment_blockContents] at isFile
  rw [← isFile] at isCleared filledWhole
  have isSaved := closed_heap sizeManager zeroEnvironment (segment filled)
    frontLength List.length_replicate filledWhole
  rw [isFile] at isSaved isCleared
  rw [clearedSegment] at isSaved
  have savedSegment : segment (filled.set headerDirtyBitOffset 0) =
      blockContents 1 := by
    rw [segment_set_header (by decide), filledSegment]
  have finished : Runs.run (Host.step sizeManager zeroEnvironment) Host.start
      clearingRun = _ :=
    run_of_next isCreated <| run_of_next isFilled <| run_of_next isClosed <|
      run_of_next isOpened <| run_of_next isCleared <| run_of_next isSaved <|
        Runs.run_nil _
  have isOther : segment (filled.set headerDirtyBitOffset 0) ≠
      blockContents 0 := by
    rw [savedSegment]
    exact blockContents_ne
  exact ⟨_, _, finished, rfl, filledHeader.set_mark 0,
    dirtyByte_set filledHeader.long 0, savedSegment, rfl, isOther⟩

end TwoRuns

end StateDatabase
