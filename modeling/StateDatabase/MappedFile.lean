import Mathlib
import StateDatabase.Library.CrashPrograms
import StateDatabase.Library.Packing
import StateDatabase.ContractTables

/-!
# `pinnable_mapped_file`

The database is one file, `shared_memory.bin`: a header of 1024 bytes and a
segment.  The file is mapped into memory and changed there, or in heap and
locked mode it is copied to other memory when it is opened and copied back when
it is closed.  The byte behind the id says whether the file may be incomplete.

The contents of the file are the state of the programs, none if there is no
file.  Every changed byte is a step at which the process can stop.  `flush`
reports failures on `cerr` only, and what was written stays written.
-/

namespace StateDatabase

open Programs CrashPrograms Packing

/-! ## The header -/

def headerSize : Nat := 1024

/-- "EOSIODB2" -/
def headerId : Nat := 0x3242444f49534f45

def headerDirtyBitOffset : Nat := 8

/-- `_db_size_multiple_requirement` -/
def dbSizeMultipleRequirement : Nat := 1024 * 1024

/-- The bytes of `environment()`. -/
structure Environment where
  bytes : Bytes
  length : bytes.length = 775

/-- The bytes of a new `db_header`, which is not dirty. -/
def dbHeader (environ : Environment) : Bytes :=
  littleEndian 8 headerId ++ 0 :: environ.bytes

/-- What the constructor asks of the header of an existing file. -/
structure ValidHeader (environ : Environment) (bytes : Bytes) : Prop where
  long : headerSize ≤ bytes.length
  id : bytes.take 8 = littleEndian 8 headerId
  environ : (bytes.drop 9).take 775 = environ.bytes

def dirtyByte (bytes : Bytes) : UInt8 :=
  bytes.getD headerDirtyBitOffset 0

def segment (bytes : Bytes) : Bytes :=
  bytes.drop headerSize

/-! ## The segment -/

/-- The `segment_manager`: what constructing it in a segment and growing it
writes there, byte for byte, and where it keeps the size of the segment. -/
structure SegmentManager where
  construct : Nat → List (Nat × UInt8)
  grow : Bytes → Nat → List (Nat × UInt8)
  sizeOffset : Nat

def writeAll (writes : List (Nat × UInt8)) (bytes : Bytes) : Bytes :=
  writes.foldl (fun bytes write => bytes.set write.1 write.2) bytes

namespace SegmentManager

/-- The bytes of the recorded size. -/
def sizeField (boost : SegmentManager) (contents : Bytes) : Bytes :=
  (contents.drop boost.sizeOffset).take 8

/-- The segment size that is recorded in the segment. -/
def Records (boost : SegmentManager) (contents : Bytes) (size : Nat) : Prop :=
  boost.sizeField contents = littleEndian 8 size

end SegmentManager

/-! ## Requests and what the system does with them -/

inductive MapMode where
  | mapped
  | heap
  | locked
deriving DecidableEq, Repr

/-- The arguments of the constructor. -/
structure OpenRequest where
  dataFilePath : String
  databaseName : String
  writable : Bool
  sharedFileSize : UInt64
  allowDirty : Bool
  mode : MapMode
  hugepagePaths : List String

/-- What the system answers: `some text` is an exception with this text. -/
structure System where
  createDirectories : Option String
  resizeFile : Option String
  /-- `file_mapping` and `mapped_region` -/
  mapFile : Option String
  fileLock : Option String
  tryLock : Bool
  /-- `io_service`, `signal_set`, `sig_set.add` and `async_wait` -/
  signalSet : Option String
  anonymousMemory : Option String
  /-- whether the path is a hugepage mount, and its block size -/
  statfs : String → Option (Bool × UInt32)
  /-- the error of `creat` in this directory -/
  creat : String → Option String
  ftruncate : Bool
  mapHugepages : Option String
  /-- the number of blocks after which a signal arrives -/
  signal : Option Nat
  mlock : Bool

/-- An open file; in heap and locked mode with `_mapped_region`. -/
structure PinnableMappedFile where
  writable : Bool
  memory : Option Bytes

/-! ## Access to the file -/

abbrev FileM := EStateM Fault (Traced (Option Bytes))

def answer : Option String → FileM PUnit
  | some text => throw (.runtimeError text)
  | none => pure ⟨⟩

def throwIf (refused : Prop) [Decidable refused] (fault : Fault) :
    FileM PUnit :=
  if refused then throw fault else pure ⟨⟩

/-- The bytes of the file. -/
def fileBytes : FileM Bytes := do
  match (← current) with
  | some bytes => return bytes
  | none => throw .undefined

def poke (offset : Nat) (value : UInt8) : FileM PUnit :=
  change (Option.map (List.set · offset value))

def pokeAll (offset : Nat) : List (Nat × UInt8) → FileM PUnit
  | [] => pure ⟨⟩
  | write :: rest => do
      poke (offset + write.1) write.2
      pokeAll offset rest

/-- `memcpy` into the file. -/
def copyTo (offset : Nat) : Bytes → FileM PUnit
  | [] => pure ⟨⟩
  | value :: rest => do
      poke offset value
      copyTo (offset + 1) rest

def resized (size : Nat) (bytes : Bytes) : Bytes :=
  bytes.take size ++ List.replicate (size - bytes.length) 0

/-- Map the file; an empty one cannot be mapped. -/
def mapRegion (system : System) : FileM Bytes := do
  answer system.mapFile
  let bytes ← fileBytes
  throwIf (bytes.length = 0)
    (.runtimeError "boost::interprocess_exception::library_error")
  return bytes

def setMappedFileDbDirty (dirty : Bool) : FileM PUnit :=
  poke headerDirtyBitOffset (if dirty then 1 else 0)

/-! ## Loading and saving -/

/-- `while(offset != _file_mapped_region.get_size())`.  A signal that has
arrived is noticed after a block. -/
def loadLoop (signal : Option Nat) (src dst : Bytes) (offset blocks : Nat) :
    Except Fault Bytes :=
  if offset = src.length then
    .ok dst
  else if inside : offset + dbSizeMultipleRequirement ≤ src.length ∧
      offset + dbSizeMultipleRequirement ≤ dst.length then
    let copied := dst.take offset ++
      (src.drop offset).take dbSizeMultipleRequirement ++
      dst.drop (offset + dbSizeMultipleRequirement)
    if signal = some (blocks + 1) then
      .error (.runtimeError "Database load aborted")
    else
      loadLoop signal src copied (offset + dbSizeMultipleRequirement)
        (blocks + 1)
  else
    .error .undefined
termination_by src.length - offset
decreasing_by
  rw [dbSizeMultipleRequirement] at inside ⊢
  omega

/-- `load_database_file` into new memory. -/
def loadDatabaseFile (signal : Option Nat) (src : Bytes) :
    Except Fault Bytes :=
  loadLoop signal src (List.replicate src.length 0) 0 0

/-- `all_zeros`, word by word. -/
def allZeros : Nat → Bytes → Bool
  | 0, _ => true
  | words + 1, data =>
      if (data.take 8).any (· != 0) then false
      else allZeros words (data.drop 8)

/-- The loop of `save_database_file`. -/
def saveLoop (src : Bytes) (size offset : Nat) : FileM PUnit :=
  if offset = size then
    pure ⟨⟩
  else if _inside : offset + dbSizeMultipleRequirement ≤ size ∧
      offset + dbSizeMultipleRequirement ≤ src.length then do
    let block := (src.drop offset).take dbSizeMultipleRequirement
    if allZeros (dbSizeMultipleRequirement / 8) block = false then
      copyTo offset block
    saveLoop src size (offset + dbSizeMultipleRequirement)
  else
    throw .undefined
termination_by size - offset
decreasing_by
  rw [dbSizeMultipleRequirement] at _inside ⊢
  omega

def saveDatabaseFile (src : Bytes) : FileM PUnit := do
  let bytes ← fileBytes
  saveLoop src bytes.length 0

/-! ## Opening -/

section Open

variable (boost : SegmentManager) (environ : Environment)

/-- The checks before anything is looked at. -/
def checkRequest (request : OpenRequest) : FileM PUnit := do
  throwIf (request.sharedFileSize.toNat % dbSizeMultipleRequirement ≠ 0)
    (.runtimeError ("Database must be mulitple of " ++
      toString dbSizeMultipleRequirement ++ " bytes"))
  throwIf (request.hugepagePaths ≠ [] ∧ request.mode ≠ .locked)
    (.runtimeError "Locked mode is required for hugepage usage")
  let found ← current
  throwIf (request.writable = false ∧ found = none)
    (.runtimeError ("database file not found at " ++ request.dataFilePath))

/-- The header of an existing file. -/
def checkHeader (request : OpenRequest) (bytes : Bytes) : FileM PUnit := do
  throwIf (bytes.length < headerSize)
    (.runtimeError "Failed to read DB header.")
  throwIf (bytes.take 8 ≠ littleEndian 8 headerId)
    (.runtimeError ("\"" ++ request.databaseName ++
      "\" database format not compatible with this version of chainbase."))
  throwIf (request.allowDirty = false ∧ dirtyByte bytes ≠ 0)
    (.runtimeError ("\"" ++ request.databaseName ++
      "\" database dirty flag set"))
  throwIf ((bytes.drop 9).take 775 ≠ environ.bytes)
    (.runtimeError "All environment parameters must match")

/-- There is no file yet. -/
def createDatabaseFile (system : System) (size : Nat) : FileM PUnit := do
  change fun _ => some []
  answer system.resizeFile
  change (Option.map (resized size))
  let _ ← mapRegion system
  pokeAll headerSize (boost.construct (size - headerSize))
  copyTo 0 (dbHeader environ)

/-- The file exists and is opened for writing; it can only grow. -/
def growDatabaseFile (system : System) (size : Nat) (existing : Bytes) :
    FileM PUnit :=
  if existing.length < size then do
    answer system.resizeFile
    change (Option.map (resized size))
    let bytes ← mapRegion system
    pokeAll headerSize (boost.grow (segment bytes) (size - existing.length))
  else do
    let _ ← mapRegion system

/-- Create the file, or check it and map it. -/
def prepareDatabaseFile (system : System) (request : OpenRequest) :
    Option Bytes → FileM PUnit
  | none =>
      createDatabaseFile boost environ system request.sharedFileSize.toNat
  | some existing => do
      checkHeader environ request existing
      if request.writable then
        growDatabaseFile boost system request.sharedFileSize.toNat existing
      else do
        let _ ← mapRegion system

def lockDatabaseFile (system : System) : FileM PUnit := do
  answer system.fileLock
  throwIf (system.tryLock = false) (.runtimeError
    "could not gain write access to the shared memory file")
  setMappedFileDbDirty true

/-- `page_size_to_paths`, the largest page size first. -/
def pageSizeToPaths (system : System) :
    List String → Except Fault (List (UInt32 × String))
  | [] => .ok []
  | path :: rest =>
      match system.statfs path with
      | none => .error (.runtimeError ("Could not statfs() path " ++ path))
      | some (false, _) => .error (.runtimeError
          (path ++ " does not look like a hugepagefs mount"))
      | some (true, pageSize) => do
          let others ← pageSizeToPaths system rest
          -- a later path of the same page size takes the place of this one
          if others.any (·.1 = pageSize) then return others
          else return others.filter (pageSize < ·.1) ++ (pageSize, path) ::
            others.filter (·.1 < pageSize)

/-- `get_huge_region`; the new memory is all zeros. -/
def getHugeRegion (system : System) (hugePaths : List String) (size : Nat) :
    FileM PUnit :=
  match pageSizeToPaths system hugePaths with
  | .error fault => throw fault
  | .ok pages =>
      match pages.find? fun page => page.1 = 0 ∨ size % page.1.toNat = 0 with
      | some (pageSize, path) => do
          throwIf (pageSize = 0) .undefined
          answer ((system.creat path).map fun error =>
            "Could not open hugepage file in " ++ path ++ ": " ++ error)
          throwIf (system.ftruncate = false)
            (.runtimeError "Failed to grow hugepage file to specified size")
          answer system.mapHugepages
      | none => answer system.anonymousMemory

/-- The memory in which the file is used. -/
def newRegion (system : System) (request : OpenRequest) (size : Nat) :
    FileM PUnit :=
  if request.mode = .heap then
    answer system.anonymousMemory
  else
    getHugeRegion system request.hugepagePaths size

/-- Copy the file to other memory. -/
def loadRegion (system : System) (request : OpenRequest) : FileM Bytes := do
  let bytes ← fileBytes
  newRegion system request bytes.length
  match loadDatabaseFile system.signal bytes with
  | .error fault => throw fault
  | .ok memory => do
      throwIf (request.mode = .locked ∧ system.mlock = false)
        (.runtimeError
          ("Failed to mlock database \"" ++ request.databaseName ++ "\""))
      return memory

/-- Take the lock and mark the file as dirty. -/
def markDatabaseFile (system : System) (request : OpenRequest) : FileM PUnit :=
  if request.writable then lockDatabaseFile system else pure ⟨⟩

/-- The file itself is used in mapped mode.  When it cannot be loaded in
another mode, it is marked as clean; the signals are set up before that, outside
the `try` block. -/
def useDatabaseFile (system : System) (request : OpenRequest) :
    FileM PinnableMappedFile :=
  if request.mode = .mapped then
    pure { writable := request.writable, memory := none }
  else do
    answer system.signalSet
    let memory ← rethrowing Fault.isException (loadRegion system request)
      (if request.writable then setMappedFileDbDirty false else pure ⟨⟩)
    return { writable := request.writable, memory := some memory }

/-- The constructor. -/
def openPinnableMappedFile (system : System) (request : OpenRequest) :
    FileM PinnableMappedFile := do
  checkRequest request
  answer system.createDirectories
  let found ← current
  prepareDatabaseFile boost environ system request found
  markDatabaseFile system request
  useDatabaseFile system request

end Open

/-! ## Closing -/

/-- Copy other memory back to the file.  An exception would leave the
destructor. -/
def writeBack (system : System) : Option Bytes → FileM PUnit
  | some memory => do
      throwIf (system.mapFile ≠ none) .abort
      saveDatabaseFile memory
  | none => pure ⟨⟩

/-- The destructor. -/
def closePinnableMappedFile (system : System) (file : PinnableMappedFile) :
    FileM PUnit :=
  if file.writable then do
    writeBack system file.memory
    setMappedFileDbDirty false
  else
    pure ⟨⟩

/-! ## Rules -/

section Rules

variable {always : Option Bytes → Prop} {state : Option Bytes}
  {fail : Fault → Option Bytes → Prop} {post : PUnit → Option Bytes → Prop}

theorem passes_throwIf {refused : Prop} [Decidable refused] {fault : Fault}
    (onRefusal : refused → fail fault state)
    (otherwise : ¬ refused → post ⟨⟩ state) :
    Passes always (throwIf refused fault) state post fail := by
  by_cases isRefused : refused
  · rw [throwIf, if_pos isRefused]
    exact passes_throw (onRefusal isRefused)
  · rw [throwIf, if_neg isRefused]
    exact passes_pure (otherwise isRefused)

theorem passes_answer {refusal : Option String}
    (onRefusal : ∀ text, refusal = some text → fail (.runtimeError text) state)
    (otherwise : refusal = none → post ⟨⟩ state) :
    Passes always (answer refusal) state post fail := by
  cases refusal with
  | some text => exact passes_throw (onRefusal text rfl)
  | none => exact passes_pure (otherwise rfl)

variable {bytes : Bytes}

theorem passes_fileBytes {post : Bytes → Option Bytes → Prop}
    (holds : post bytes (some bytes)) :
    Passes always fileBytes (some bytes) post fail := by
  apply passes_bind
  apply passes_current
  exact passes_pure holds

theorem passes_mapRegion {system : System} {post : Bytes → Option Bytes → Prop}
    (onRefusal : ∀ text, system.mapFile ≠ none ∨ bytes.length = 0 →
      fail (.runtimeError text) (some bytes))
    (otherwise : system.mapFile = none → bytes.length ≠ 0 →
      post bytes (some bytes)) :
    Passes always (mapRegion system) (some bytes) post fail := by
  apply passes_bind
  apply passes_answer
  · intro text isText
    apply onRefusal text
    rw [isText]
    exact Or.inl (Option.some_ne_none text)
  · intro isMapped
    apply passes_bind
    apply passes_fileBytes
    apply passes_bind
    apply passes_throwIf
    · intro isEmpty
      exact onRefusal _ (Or.inr isEmpty)
    · intro notEmpty
      exact passes_pure (otherwise isMapped notEmpty)

theorem passes_poke {offset : Nat} {value : UInt8}
    (allowed : always (some (bytes.set offset value)))
    (holds : post ⟨⟩ (some (bytes.set offset value))) :
    Passes always (poke offset value) (some bytes) post fail :=
  passes_change allowed holds

/-- The bytes after the writes of `pokeAll`. -/
def pokedAll (offset : Nat) (writes : List (Nat × UInt8)) (bytes : Bytes) :
    Bytes :=
  writes.foldl (fun bytes write => bytes.set (offset + write.1) write.2) bytes

/-- The bytes after those of `copyTo`. -/
def copiedTo (offset : Nat) : Bytes → Bytes → Bytes
  | [], bytes => bytes
  | value :: rest, bytes => copiedTo (offset + 1) rest (bytes.set offset value)

/-- `pokeAll` keeps what every one of its writes keeps. -/
theorem passes_pokeAll (invariant : Bytes → Prop)
    (allowed : ∀ bytes, invariant bytes → always (some bytes))
    {offset : Nat} {writes : List (Nat × UInt8)}
    (keeps : ∀ write ∈ writes, ∀ bytes, invariant bytes →
      invariant (bytes.set (offset + write.1) write.2))
    (holds : ∀ final, invariant final → final = pokedAll offset writes bytes →
      post ⟨⟩ (some final))
    (starts : invariant bytes) :
    Passes always (pokeAll offset writes) (some bytes) post fail := by
  induction writes generalizing bytes with
  | nil => exact passes_pure (holds bytes starts rfl)
  | cons write rest inductionHypothesis =>
      have next := keeps write List.mem_cons_self bytes starts
      apply passes_bind
      apply passes_poke (allowed _ next)
      apply inductionHypothesis
      · intro other member
        exact keeps other (List.mem_cons_of_mem write member)
      · intro final kept isFinal
        exact holds final kept isFinal
      · exact next

/-- `copyTo` keeps what every one of its writes keeps. -/
theorem passes_copyTo (invariant : Bytes → Prop)
    (allowed : ∀ bytes, invariant bytes → always (some bytes))
    {offset : Nat} {data : Bytes}
    (keeps : ∀ i value, data[i]? = some value → ∀ bytes, invariant bytes →
      invariant (bytes.set (offset + i) value))
    (holds : ∀ final, invariant final → final = copiedTo offset data bytes →
      post ⟨⟩ (some final))
    (starts : invariant bytes) :
    Passes always (copyTo offset data) (some bytes) post fail := by
  induction data generalizing bytes offset with
  | nil => exact passes_pure (holds bytes starts rfl)
  | cons value rest inductionHypothesis =>
      have next := keeps 0 value rfl bytes starts
      apply passes_bind
      apply passes_poke (allowed _ next)
      apply inductionHypothesis
      · intro i other isOther
        rw [Nat.add_assoc, Nat.add_comm 1]
        exact keeps (i + 1) other isOther
      · intro final kept isFinal
        exact holds final kept isFinal
      · exact next

end Rules

/-! ## Copied bytes -/

@[simp]
theorem copiedTo_length : ∀ (offset : Nat) (data bytes : Bytes),
    (copiedTo offset data bytes).length = bytes.length
  | _, [], _ => rfl
  | offset, value :: rest, bytes => by
      rw [copiedTo, copiedTo_length, List.length_set]

theorem getElem?_copiedTo : ∀ {offset : Nat} {data bytes : Bytes} (i : Nat),
    offset + data.length ≤ bytes.length →
      (copiedTo offset data bytes)[i]? =
        if offset ≤ i ∧ i < offset + data.length then data[i - offset]?
        else bytes[i]?
  | offset, [], bytes, i, _ => by
      rw [copiedTo, if_neg]
      rw [List.length_nil]
      omega
  | offset, value :: rest, bytes, i, inside => by
      rw [List.length_cons] at inside
      rw [copiedTo, getElem?_copiedTo i (by rw [List.length_set]; omega),
        List.length_cons]
      by_cases isFirst : i = offset
      · rw [if_neg (by omega), if_pos (by omega), isFirst, Nat.sub_self,
          List.getElem?_set_self (by omega)]
        rfl
      · rw [List.getElem?_set_ne (Ne.symm isFirst)]
        by_cases isLater : offset ≤ i ∧ i < offset + (rest.length + 1)
        · have position : i - offset = i - (offset + 1) + 1 := by omega
          rw [if_pos (by omega), if_pos isLater, position,
            List.getElem?_cons_succ]
        · rw [if_neg (by omega), if_neg isLater]

end StateDatabase
