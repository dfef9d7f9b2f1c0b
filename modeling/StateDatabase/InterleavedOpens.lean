import Mathlib
import StateDatabase.Library.Runs
import StateDatabase.CleanFiles

/-!
# Processes that open the same file

Several processes run the constructor of `pinnable_mapped_file` on one
directory.  Between two of its steps the other processes can take any number of
theirs.  The file lock is taken after the file was created or grown, and after
the checks on which that rests, so a process can still change the file while
another one holds the lock.
-/

namespace StateDatabase

open Programs CrashPrograms

/-! ## The steps of the constructor -/

/-- The step that a constructor takes next.  From the mapping on the size of
the mapped region is kept. -/
inductive OpenStage where
  /-- the request is checked and the directories are made -/
  | starts
  /-- the first `bfs::exists` -/
  | looks
  /-- the header is read and checked -/
  | reads
  /-- the second `bfs::exists` -/
  | looksAgain
  /-- there is no file: `std::ofstream::trunc` -/
  | truncates
  | resizesNew
  | mapsNew
  /-- there is a file: `bfs::file_size` -/
  | measures
  | resizes (grow : Nat)
  | maps (grow : Nat)
  /-- the bytes of the segment and the header that are still to be written -/
  | writes (size : Nat) (pending : List (Nat × UInt8))
  /-- `try_lock` -/
  | locks (size : Nat)
  /-- `set_mapped_file_db_dirty(true)` -/
  | marks (size : Nat)
  | loads (size : Nat)
  /-- `set_mapped_file_db_dirty(false)` after an exception -/
  | unmarks (size : Nat)
  /-- the members are destroyed, and the lock with them -/
  | unlocks
  | succeeded
  /-- after an exception, or stopped by a signal -/
  | failed
deriving DecidableEq

namespace OpenStage

/-- The process holds the file lock. -/
def holds : OpenStage → Bool
  | marks _ => true
  | loads _ => true
  | unmarks _ => true
  | unlocks => true
  | succeeded => true
  | _ => false

variable (boost : SegmentManager) (environ : Environment)

/-- What a new file gets: the segment, then the header.  The size of the segment
is computed with 64 bits. -/
def newWrites (size : UInt64) : List (Nat × UInt8) :=
  (boost.construct (size - UInt64.ofNat headerSize).toNat).map
      (fun write => (headerSize + write.1, write.2)) ++
    (dbHeader environ).mapIdx Prod.mk

/-- What `segment_manager::grow` writes. -/
def grownWrites (bytes : Bytes) (grow : Nat) : List (Nat × UInt8) :=
  if grow = 0 then []
  else (boost.grow (segment bytes) grow).map
    fun write => (headerSize + write.1, write.2)

/-- Write a byte of the mapped file.  A process that touches what the file no
longer has is stopped. -/
def writesByte (file : Option Bytes) (size offset : Nat) (value : UInt8)
    (next : OpenStage) : OpenStage × Option Bytes :=
  match file with
  | some bytes =>
      if offset < size ∧ offset < bytes.length then
        (next, some (bytes.set offset value))
      else (failed, file)
  | none => (failed, file)

/-- Go on when the program returns. -/
def continues {α : Type} (program : FileM α) (file : Option Bytes)
    (next : α → OpenStage) : OpenStage × Option Bytes :=
  match program ⟨file, []⟩ with
  | .ok value _ => (next value, file)
  | .error _ _ => (failed, file)

/-- Copy the mapped region to other memory, unless the mode is mapped.  Without
the signals the constructor leaves before its handler is there. -/
def loadsFile (system : System) (request : OpenRequest) (file : Option Bytes)
    (size : Nat) : OpenStage × Option Bytes :=
  if request.mode = .mapped then (succeeded, file)
  else if system.signalSet ≠ none then (failed, file)
  else
    match file with
    | some bytes =>
        if bytes.length < size then (failed, file)
        else
          match loadRegion system request ⟨some (bytes.take size), []⟩ with
          | .ok _ _ => (succeeded, file)
          | .error fault _ =>
              (if fault.isException then unmarks size else failed, file)
    | none => (failed, file)

/-- The next step, with the file that it finds and leaves.  `free` says that no
process holds the file lock. -/
def step (system : System) (request : OpenRequest) (free : Bool)
    (file : Option Bytes) : OpenStage → OpenStage × Option Bytes
  | starts =>
      continues (do checkRequest request; answer system.createDirectories) file
        fun _ => looks
  | looks => (if file.isSome then reads else looksAgain, file)
  | reads =>
      continues (do checkHeader environ request (← fileBytes)) file
        fun _ => looksAgain
  | looksAgain => (if file.isSome then measures else truncates, file)
  | truncates => (resizesNew, some [])
  | resizesNew =>
      if system.resizeFile = none then
        (mapsNew, file.map (resized request.sharedFileSize.toNat))
      else (failed, file)
  | mapsNew =>
      continues (mapRegion system) file fun bytes =>
        writes bytes.length (newWrites boost environ request.sharedFileSize)
  | measures =>
      continues fileBytes file fun bytes =>
        if bytes.length < request.sharedFileSize.toNat then
          resizes (request.sharedFileSize.toNat - bytes.length)
        else maps 0
  | resizes grow =>
      if system.resizeFile = none then
        (maps grow, file.map (resized request.sharedFileSize.toNat))
      else (failed, file)
  | maps grow =>
      continues (mapRegion system) file fun bytes =>
        writes bytes.length (grownWrites boost bytes grow)
  | writes size [] => (locks size, file)
  | writes size (write :: rest) =>
      writesByte file size write.1 write.2 (writes size rest)
  | locks size =>
      if system.fileLock = none ∧ free = true then (marks size, file)
      else (failed, file)
  | marks size =>
      writesByte file size headerDirtyBitOffset 1 (loads size)
  | loads size => loadsFile system request file size
  | unmarks size => writesByte file size headerDirtyBitOffset 0 unlocks
  | unlocks => (failed, file)
  | succeeded => (succeeded, file)
  | failed => (failed, file)

end OpenStage

/-! ## Interleaved processes -/

/-- The file, the process that holds its lock, and where the constructor of
every process is. -/
structure SharedFile (ι : Type) where
  file : Option Bytes
  lock : Option ι
  stages : ι → OpenStage

namespace SharedFile

variable {ι : Type} [DecidableEq ι]

def start (file : Option Bytes) : SharedFile ι where
  file := file
  lock := none
  stages := fun _ => .starts

variable (boost : SegmentManager) (environ : Environment)
  (requests : ι → OpenRequest)

/-- What the next step of a process finds and leaves. -/
def outcome (state : SharedFile ι) (process : ι) (system : System) :
    OpenStage × Option Bytes :=
  (state.stages process).step boost environ system
    (requests process).forWriting state.lock.isNone state.file

/-- A process takes its next step, with these answers of the system. -/
def next (state : SharedFile ι) (process : ι) (system : System) :
    SharedFile ι :=
  let taken := state.outcome boost environ requests process system
  { file := taken.2
    lock :=
      if taken.1.holds then some process
      else if state.lock = some process then none
      else state.lock
    stages := Function.update state.stages process taken.1 }

def step (state : SharedFile ι) (event : ι × System) : Option (SharedFile ι) :=
  some (state.next boost environ requests event.1 event.2)

/-! ## The property -/

/-- At most one process has opened the file, and no process changes the file in
its next step while another one holds the lock. -/
structure OnlyHolderWrites (state : SharedFile ι) : Prop where
  oneSucceeds : ∀ first second, state.stages first = .succeeded →
    state.stages second = .succeeded → first = second
  othersKeep : ∀ holder other system, state.lock = some holder →
    other ≠ holder →
      (state.next boost environ requests other system).file = state.file

end SharedFile

/-- The request passes the checks that do not look at the file. -/
def OpenRequest.Acceptable (request : OpenRequest) : Prop :=
  request.sharedFileSize.toNat % dbSizeMultipleRequirement = 0 ∧
    (request.hugepagePaths = [] ∨ request.mode = .locked)

/-- The request also passes the checks of this file. -/
def OpenRequest.Admissible (environ : Environment) (request : OpenRequest)
    (bytes : Bytes) : Prop :=
  request.Acceptable ∧ ValidHeader environ bytes ∧
    (request.allowDirty = true ∨ dirtyByte bytes = 0)

/-- Two requests cannot disturb each other: both could create the file only
with size 0, which cannot be mapped; a request that asks for more than an
existing file has is alone in passing its checks; and it is no larger than what
a process leaves that marks a dirty file as clean because it cannot load it. -/
structure NonInterfering {ι : Type} (environ : Environment)
    (requests : ι → OpenRequest) (file : Option Bytes) : Prop where
  absent : file = none → ∀ first second, first ≠ second →
    (requests first).Acceptable → (requests second).Acceptable →
      (requests first).sharedFileSize.toNat = 0
  admitted : ∀ bytes, file = some bytes → ∀ first second, first ≠ second →
    (requests first).Admissible environ bytes →
      (requests second).Admissible environ bytes →
        (requests first).sharedFileSize.toNat ≤ bytes.length
  cleaned : ∀ bytes, file = some bytes → ∀ first second, first ≠ second →
    (requests first).Admissible environ bytes →
      (requests first).mode ≠ .mapped → (requests second).Acceptable →
        (requests second).sharedFileSize.toNat ≤
          max bytes.length (requests first).sharedFileSize.toNat

/-! ## What a step can do -/

namespace OpenStage

/-- The steps with their guards.  Every step can fail. -/
inductive Advances (boost : SegmentManager) (environ : Environment)
    (request : OpenRequest) (free : Bool) (file : Option Bytes) :
    OpenStage → OpenStage → Option Bytes → Prop
  | fails (stage : OpenStage) :
      Advances boost environ request free file stage failed file
  | starts (acceptable : request.Acceptable) :
      Advances boost environ request free file starts looks file
  | looksPresent (present : file ≠ none) :
      Advances boost environ request free file looks reads file
  | looksAbsent (absent : file = none) :
      Advances boost environ request free file looks looksAgain file
  | reads (bytes : Bytes) (isFile : file = some bytes)
      (header : ValidHeader environ bytes)
      (clean : request.allowDirty = true ∨ dirtyByte bytes = 0) :
      Advances boost environ request free file reads looksAgain file
  | againPresent (present : file ≠ none) :
      Advances boost environ request free file looksAgain measures file
  | againAbsent (absent : file = none) :
      Advances boost environ request free file looksAgain truncates file
  | truncates :
      Advances boost environ request free file truncates resizesNew (some [])
  | resizesNew :
      Advances boost environ request free file resizesNew mapsNew
        (file.map (resized request.sharedFileSize.toNat))
  | mapsNew (bytes : Bytes) (isFile : file = some bytes)
      (notEmpty : bytes.length ≠ 0) :
      Advances boost environ request free file mapsNew
        (writes bytes.length
          (newWrites boost environ request.sharedFileSize)) file
  | grows (bytes : Bytes) (isFile : file = some bytes)
      (larger : bytes.length < request.sharedFileSize.toNat) :
      Advances boost environ request free file measures
        (resizes (request.sharedFileSize.toNat - bytes.length)) file
  | stays (bytes : Bytes) (isFile : file = some bytes)
      (notLarger : request.sharedFileSize.toNat ≤ bytes.length) :
      Advances boost environ request free file measures (maps 0) file
  | resizes (grow : Nat) :
      Advances boost environ request free file (resizes grow) (maps grow)
        (file.map (resized request.sharedFileSize.toNat))
  | maps (grow : Nat) (bytes : Bytes) (isFile : file = some bytes)
      (notEmpty : bytes.length ≠ 0) :
      Advances boost environ request free file (maps grow)
        (writes bytes.length (grownWrites boost bytes grow)) file
  | written (size : Nat) :
      Advances boost environ request free file (writes size []) (locks size)
        file
  | writes (size : Nat) (write : Nat × UInt8) (rest : List (Nat × UInt8))
      (bytes : Bytes) (isFile : file = some bytes) :
      Advances boost environ request free file (writes size (write :: rest))
        (writes size rest) (some (bytes.set write.1 write.2))
  | locks (size : Nat) (isFree : free = true) :
      Advances boost environ request free file (locks size) (marks size) file
  | marks (size : Nat) (bytes : Bytes) (isFile : file = some bytes) :
      Advances boost environ request free file (marks size) (loads size)
        (some (bytes.set headerDirtyBitOffset 1))
  | loads (size : Nat) :
      Advances boost environ request free file (loads size) succeeded file
  | aborts (size : Nat) (notMapped : request.mode ≠ .mapped) :
      Advances boost environ request free file (loads size) (unmarks size) file
  | unmarks (size : Nat) (bytes : Bytes) (isFile : file = some bytes) :
      Advances boost environ request free file (unmarks size) unlocks
        (some (bytes.set headerDirtyBitOffset 0))
  | stops :
      Advances boost environ request free file succeeded succeeded file

variable {boost : SegmentManager} {environ : Environment} {system : System}
  {request : OpenRequest} {free : Bool} {file : Option Bytes}

/-- A program that does not change the file fails or returns. -/
theorem continues_cases {α : Type} {program : FileM α} {post : α → Prop}
    (passes : Passes (fun _ => True) program file (fun value _ => post value)
      (fun _ _ => True)) (next : α → OpenStage) :
    continues program file next = (failed, file) ∨
      ∃ value, post value ∧
        continues program file next = (next value, file) := by
  have ends := passes.ends trivial
  cases ran : program ⟨file, []⟩ with
  | ok value final =>
      right
      refine ⟨value, (ends.of_ok ran).2, ?_⟩
      rw [continues, ran]
  | error fault final =>
      left
      rw [continues, ran]

theorem writesByte_cases (file : Option Bytes) (size offset : Nat)
    (value : UInt8) (next : OpenStage) :
    writesByte file size offset value next = (failed, file) ∨
      ∃ bytes, file = some bytes ∧
        writesByte file size offset value next =
          (next, some (bytes.set offset value)) := by
  cases file with
  | none => exact Or.inl rfl
  | some bytes =>
      rw [writesByte]
      split
      · exact Or.inr ⟨bytes, rfl, rfl⟩
      · exact Or.inl rfl

/-- A step that fails or goes on advances. -/
theorem advances_of_cases {stage next : OpenStage} {content : Option Bytes}
    {result : OpenStage × Option Bytes}
    (cases : result = (failed, file) ∨ result = (next, content))
    (goesOn : Advances boost environ request free file stage next content) :
    Advances boost environ request free file stage result.1 result.2 := by
  rcases cases with isFailed | isNext
  · rw [isFailed]
    exact .fails stage
  · rw [isNext]
    exact goesOn

theorem passes_mapRegion_found :
    Passes (fun _ => True) (mapRegion system) file
      (fun bytes _ => file = some bytes ∧ bytes.length ≠ 0)
      (fun _ _ => True) := by
  cases file with
  | none =>
      apply passes_bind
      apply passes_answer
      · intro _ _
        trivial
      · intro _
        apply passes_bind
        apply passes_bind
        apply passes_current
        exact passes_throw trivial
  | some bytes =>
      apply passes_mapRegion
      · intro _ _
        trivial
      · intro _ notEmpty
        exact ⟨rfl, notEmpty⟩

theorem passes_fileBytes_found :
    Passes (fun _ => True) fileBytes file (fun bytes _ => file = some bytes)
      (fun _ _ => True) := by
  cases file with
  | none =>
      apply passes_bind
      apply passes_current
      exact passes_throw trivial
  | some bytes => exact passes_fileBytes rfl

theorem passes_starts :
    Passes (fun _ => True)
      (do checkRequest request.forWriting; answer system.createDirectories)
      file (fun _ _ => request.Acceptable) (fun _ _ => True) := by
  apply passes_bind
  apply passes_checkRequest
  · intro _ _
    trivial
  · intro accepted
    apply passes_answer
    · intro _ _
      trivial
    · intro _
      exact ⟨accepted.size, accepted.pages⟩

theorem passes_reads :
    Passes (fun _ => True)
      (do checkHeader environ request.forWriting (← fileBytes)) file
      (fun _ _ => ∃ bytes, file = some bytes ∧ ValidHeader environ bytes ∧
        (request.allowDirty = true ∨ dirtyByte bytes = 0))
      (fun _ _ => True) := by
  apply passes_bind
  apply passes_fileBytes_found.imp
  · intro bytes middle isFile
    apply passes_checkHeader
    · intro _ _
      trivial
    · intro header clean
      exact ⟨bytes, isFile, header, clean⟩
  · intro _ _ _
    trivial

/-- What a step can do. -/
theorem step_advances (stage : OpenStage) :
    Advances boost environ request free file stage
      (stage.step boost environ system request.forWriting free file).1
      (stage.step boost environ system request.forWriting free file).2 := by
  cases stage with
  | starts =>
      rcases continues_cases passes_starts fun _ => looks with isFailed | goesOn
      · exact advances_of_cases (Or.inl isFailed) (.fails starts)
      · rcases goesOn with ⟨_, acceptable, isNext⟩
        exact advances_of_cases (Or.inr isNext) (.starts acceptable)
  | looks =>
      cases file with
      | none => exact .looksAbsent rfl
      | some bytes => exact .looksPresent (Option.some_ne_none bytes)
  | reads =>
      rcases continues_cases passes_reads fun _ => looksAgain
        with isFailed | goesOn
      · exact advances_of_cases (Or.inl isFailed) (.fails reads)
      · rcases goesOn with ⟨_, ⟨bytes, isFile, header, clean⟩, isNext⟩
        exact advances_of_cases (Or.inr isNext)
          (.reads bytes isFile header clean)
  | looksAgain =>
      cases file with
      | none => exact .againAbsent rfl
      | some bytes => exact .againPresent (Option.some_ne_none bytes)
  | truncates => exact .truncates
  | resizesNew =>
      rw [OpenStage.step]
      split
      · exact .resizesNew
      · exact .fails resizesNew
  | mapsNew =>
      rcases continues_cases passes_mapRegion_found fun bytes =>
        writes bytes.length (newWrites boost environ request.sharedFileSize)
        with isFailed | goesOn
      · exact advances_of_cases (Or.inl isFailed) (.fails mapsNew)
      · rcases goesOn with ⟨bytes, ⟨isFile, notEmpty⟩, isNext⟩
        exact advances_of_cases (Or.inr isNext)
          (.mapsNew bytes isFile notEmpty)
  | measures =>
      rcases continues_cases passes_fileBytes_found fun bytes =>
        if bytes.length < request.sharedFileSize.toNat then
          resizes (request.sharedFileSize.toNat - bytes.length)
        else maps 0 with isFailed | goesOn
      · exact advances_of_cases (Or.inl isFailed) (.fails measures)
      · rcases goesOn with ⟨bytes, isFile, isNext⟩
        apply advances_of_cases (Or.inr isNext)
        by_cases larger : bytes.length < request.sharedFileSize.toNat
        · rw [if_pos larger]
          exact .grows bytes isFile larger
        · rw [if_neg larger]
          exact .stays bytes isFile (Nat.not_lt.mp larger)
  | resizes grow =>
      rw [OpenStage.step]
      split
      · exact .resizes grow
      · exact .fails (.resizes grow)
  | maps grow =>
      rcases continues_cases passes_mapRegion_found fun bytes =>
        writes bytes.length (grownWrites boost bytes grow)
        with isFailed | goesOn
      · exact advances_of_cases (Or.inl isFailed) (.fails (.maps grow))
      · rcases goesOn with ⟨bytes, ⟨isFile, notEmpty⟩, isNext⟩
        exact advances_of_cases (Or.inr isNext)
          (.maps grow bytes isFile notEmpty)
  | writes size pending =>
      cases pending with
      | nil => exact .written size
      | cons write rest =>
          rcases writesByte_cases file size write.1 write.2 (writes size rest)
            with isFailed | goesOn
          · exact advances_of_cases (Or.inl isFailed) (.fails _)
          · rcases goesOn with ⟨bytes, isFile, isNext⟩
            exact advances_of_cases (Or.inr isNext)
              (.writes size write rest bytes isFile)
  | locks size =>
      rw [OpenStage.step]
      split
      · rename_i granted
        exact .locks size granted.2
      · exact .fails (.locks size)
  | marks size =>
      rcases writesByte_cases file size headerDirtyBitOffset 1 (loads size)
        with isFailed | goesOn
      · exact advances_of_cases (Or.inl isFailed) (.fails _)
      · rcases goesOn with ⟨bytes, isFile, isNext⟩
        exact advances_of_cases (Or.inr isNext) (.marks size bytes isFile)
  | loads size =>
      rw [OpenStage.step, loadsFile.eq_def]
      split
      · exact .loads size
      · rename_i notMapped
        split
        · exact .fails (.loads size)
        · split
          · split
            · exact .fails (.loads size)
            · split
              · exact .loads size
              · split
                · exact .aborts size notMapped
                · exact .fails (.loads size)
          · exact .fails (.loads size)
  | unmarks size =>
      rcases writesByte_cases file size headerDirtyBitOffset 0 unlocks
        with isFailed | goesOn
      · exact advances_of_cases (Or.inl isFailed) (.fails _)
      · rcases goesOn with ⟨bytes, isFile, isNext⟩
        exact advances_of_cases (Or.inr isNext) (.unmarks size bytes isFile)
  | unlocks => exact .fails unlocks
  | succeeded => exact .stops
  | failed => exact .fails failed

end OpenStage

/-! ## Kinds of steps -/

namespace OpenStage

/-- The header check was passed, and the constructor has not left. -/
def passed : OpenStage → Bool
  | starts => false
  | looks => false
  | reads => false
  | failed => false
  | _ => true

/-- There was no file. -/
def creates : OpenStage → Bool
  | truncates => true
  | resizesNew => true
  | mapsNew => true
  | _ => false

/-- The file is changed without the lock. -/
def grows : OpenStage → Bool
  | resizes _ => true
  | maps grow => grow ≠ 0
  | writes _ pending => pending ≠ []
  | _ => false

/-- The file was compared with the request. -/
def fits : OpenStage → Bool
  | maps _ => true
  | writes _ _ => true
  | locks _ => true
  | marks _ => true
  | loads _ => true
  | unmarks _ => true
  | unlocks => true
  | succeeded => true
  | _ => false

/-- Nothing is mapped yet. -/
def unmapped : OpenStage → Bool
  | resizes _ => false
  | writes _ _ => false
  | locks _ => false
  | marks _ => false
  | loads _ => false
  | unmarks _ => false
  | unlocks => false
  | succeeded => false
  | _ => true

end OpenStage

/-! ## The lock -/

section Lock

variable {boost : SegmentManager} {environ : Environment}
  {request : OpenRequest} {free : Bool} {file content : Option Bytes}
  {stage stage' : OpenStage}

/-- The lock is taken when it is free only. -/
theorem OpenStage.Advances.holds
    (advances : Advances boost environ request free file stage stage' content)
    (holds : stage'.holds = true) : stage.holds = true ∨ free = true := by
  cases advances with
  | locks size isFree => exact Or.inr isFree
  | marks size bytes isFile => exact Or.inl rfl
  | loads size => exact Or.inl rfl
  | aborts size notMapped => exact Or.inl rfl
  | unmarks size bytes isFile => exact Or.inl rfl
  | stops => exact Or.inl rfl
  | _ => cases holds

/-- The file is changed by a process that creates it, grows it, or holds the
lock. -/
theorem OpenStage.Advances.changes
    (advances : Advances boost environ request free file stage stage' content) :
    content = file ∨ stage.grows = true ∨ stage.holds = true ∨
      stage.creates = true := by
  cases advances with
  | truncates => exact Or.inr (Or.inr (Or.inr rfl))
  | resizesNew => exact Or.inr (Or.inr (Or.inr rfl))
  | resizes grow => exact Or.inr (Or.inl rfl)
  | writes size write rest bytes isFile => exact Or.inr (Or.inl rfl)
  | marks size bytes isFile => exact Or.inr (Or.inr (Or.inl rfl))
  | unmarks size bytes isFile => exact Or.inr (Or.inr (Or.inl rfl))
  | _ => exact Or.inl rfl

/-- A process that holds the lock has passed the header check. -/
theorem OpenStage.passed_of_holds (holds : stage.holds = true) :
    stage.passed = true := by
  cases stage <;> first | rfl | cases holds

end Lock

namespace SharedFile

variable {ι : Type} {boost : SegmentManager}
  {environ : Environment} {requests : ι → OpenRequest} {state : SharedFile ι}
  {process : ι} {system : System}

theorem outcome_advances (boost : SegmentManager) (environ : Environment)
    (requests : ι → OpenRequest) (state : SharedFile ι) (process : ι)
    (system : System) :
    OpenStage.Advances boost environ (requests process) state.lock.isNone
      state.file (state.stages process)
      (state.outcome boost environ requests process system).1
      (state.outcome boost environ requests process system).2 :=
  OpenStage.step_advances _

/-- The process that has the lock is the one that holds it. -/
def Locked (state : SharedFile ι) : Prop :=
  ∀ process, state.lock = some process ↔ (state.stages process).holds = true

theorem start_locked (file : Option Bytes) :
    (start file : SharedFile ι).Locked := by
  intro process
  constructor
  · intro isNone
    cases isNone
  · intro holds
    cases holds

/-- Two processes do not hold the lock at the same time. -/
theorem Locked.unique (locked : state.Locked) {first second : ι}
    (firstHolds : (state.stages first).holds = true)
    (secondHolds : (state.stages second).holds = true) : first = second := by
  have isFirst := (locked first).mpr firstHolds
  rw [(locked second).mpr secondHolds] at isFirst
  exact (Option.some.inj isFirst).symm

theorem Locked.oneSucceeds (locked : state.Locked) {first second : ι}
    (isFirst : state.stages first = .succeeded)
    (isSecond : state.stages second = .succeeded) : first = second := by
  apply locked.unique
  · rw [isFirst]
    rfl
  · rw [isSecond]
    rfl

variable [DecidableEq ι]

theorem next_stages_self :
    (state.next boost environ requests process system).stages process =
      (state.outcome boost environ requests process system).1 :=
  Function.update_self _ _ _

theorem next_stages_other {other : ι} (isOther : other ≠ process) :
    (state.next boost environ requests process system).stages other =
      state.stages other :=
  Function.update_of_ne isOther _ _

theorem next_file :
    (state.next boost environ requests process system).file =
      (state.outcome boost environ requests process system).2 := rfl

theorem Locked.next (locked : state.Locked) :
    (state.next boost environ requests process system).Locked := by
  have advances := outcome_advances boost environ requests state process system
  have isLock : (state.next boost environ requests process system).lock =
      if (state.outcome boost environ requests process system).1.holds = true
      then some process
      else if state.lock = some process then none
      else state.lock := rfl
  intro other
  rw [isLock]
  by_cases isOther : other = process
  · rw [isOther, next_stages_self]
    split
    · rename_i holds
      exact ⟨fun _ => holds, fun _ => rfl⟩
    · rename_i holdsNot
      split
      · constructor
        · intro isNone
          cases isNone
        · intro holds
          exact absurd holds holdsNot
      · rename_i notLocked
        constructor
        · intro isLocked
          exact absurd isLocked notLocked
        · intro holds
          exact absurd holds holdsNot
  · rw [next_stages_other isOther]
    split
    · rename_i holds
      constructor
      · intro isSame
        exact absurd (Option.some.inj isSame).symm isOther
      · intro otherHolds
        have isLocked := (locked other).mpr otherHolds
        rcases advances.holds holds with held | isFree
        · rw [(locked process).mpr held] at isLocked
          exact absurd (Option.some.inj isLocked).symm isOther
        · rw [isLocked] at isFree
          cases isFree
    · split
      · rename_i isLocked
        constructor
        · intro isNone
          cases isNone
        · intro otherHolds
          rw [(locked other).mpr otherHolds] at isLocked
          exact absurd (Option.some.inj isLocked) isOther
      · exact locked other

end SharedFile

end StateDatabase
