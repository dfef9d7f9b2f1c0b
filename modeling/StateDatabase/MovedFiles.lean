import Mathlib
import StateDatabase.CleanFiles

/-!
# Moving a mapped file

A `pinnable_mapped_file` object owns an open file: its destructor copies the
memory back in heap and locked mode, and marks the file as clean.  The
hand-written move operations pass the lock, the two regions and the flag
`_writable` on.  They do not pass `_file_mapping` on, through which the
destructor maps the file again, and the assignment forgets the file that the
target owned.

The files that were opened are numbered; a handle or a region belongs to one of
them.
-/

namespace StateDatabase

open Programs CrashPrograms

/-! ## The objects -/

/-- The members of `pinnable_mapped_file` that moves and the destructor use.  A
default-constructed handle or region is `none`. -/
structure MappedObject where
  mappedFileLock : Option Nat
  writable : Bool
  fileMapping : Option Nat
  fileMappedRegion : Option Nat
  /-- the memory of heap and locked mode -/
  mappedRegion : Option (Nat × Bytes)

namespace MappedObject

/-- The object that the constructor leaves, for the file with this number. -/
def constructed (opening : Nat) (file : PinnableMappedFile) : MappedObject where
  mappedFileLock := if file.writable then some opening else none
  writable := file.writable
  fileMapping := some opening
  fileMappedRegion := if file.memory.isSome then none else some opening
  mappedRegion := file.memory.map fun memory => (opening, memory)

/-- The new object of a move construction. -/
def moveConstructed (o : MappedObject) : MappedObject where
  mappedFileLock := o.mappedFileLock
  writable := o.writable
  fileMapping := none
  fileMappedRegion := o.fileMappedRegion
  mappedRegion := o.mappedRegion

/-- The target of a move assignment. -/
def moveAssigned (target o : MappedObject) : MappedObject where
  mappedFileLock := o.mappedFileLock
  writable := o.writable
  fileMapping := target.fileMapping
  fileMappedRegion := o.fileMappedRegion
  mappedRegion := o.mappedRegion

/-- What a move leaves of its source. -/
def movedFrom (o : MappedObject) : MappedObject where
  mappedFileLock := none
  writable := false
  fileMapping := o.fileMapping
  fileMappedRegion := none
  mappedRegion := none

/-- An assignment of an object to itself: the members are swapped with a
temporary one and back, and `_writable` is reset. -/
def selfAssigned (o : MappedObject) : MappedObject :=
  { o with writable := false }

/-- The object with other memory for this file. -/
def withMemory (o : MappedObject) (opening : Nat) (memory : Bytes) :
    MappedObject :=
  { o with mappedRegion := some (opening, memory) }

/-- The object as its destructor finds it. -/
def file (o : MappedObject) : PinnableMappedFile where
  writable := o.writable
  memory := o.mappedRegion.map Prod.snd

/-- The file whose contents the object gives access to. -/
def opening (o : MappedObject) : Option Nat :=
  match o.mappedRegion with
  | some (opening, _) => some opening
  | none => o.fileMappedRegion

/-- The file to which the destructor writes.  In heap and locked mode it is
mapped again. -/
def savesTo (o : MappedObject) : Option Nat :=
  match o.mappedRegion with
  | some _ => o.fileMapping
  | none => o.fileMappedRegion

/-- The file that the destructor has to save. -/
def owned (o : MappedObject) : Option Nat :=
  if o.writable then o.opening else none

@[simp]
theorem owned_moveConstructed (o : MappedObject) :
    o.moveConstructed.owned = o.owned := rfl

@[simp]
theorem owned_moveAssigned (target o : MappedObject) :
    (target.moveAssigned o).owned = o.owned := rfl

@[simp]
theorem owned_movedFrom (o : MappedObject) : o.movedFrom.owned = none := rfl

theorem owned_eq_some_iff {o : MappedObject} {opening : Nat} :
    o.owned = some opening ↔ o.writable = true ∧ o.opening = some opening := by
  rw [owned]
  split <;> simp_all

end MappedObject

/-! ## A process -/

/-- A file that was written out and marked as clean: the number under which it
was opened, the path to which it was written, the contents that were written,
and the bytes at the path then. -/
structure SavedFile where
  opening : Nat
  path : String
  contents : Bytes
  bytes : Option Bytes

/-- The files, the paths of the files that were opened, the objects by their
addresses, and the files that were written out. -/
structure FileProcess where
  files : String → Option Bytes
  opened : List String
  objects : Nat → Option MappedObject
  saved : List SavedFile

inductive FileEvent where
  | opens (place : Nat) (system : System) (request : OpenRequest)
  | moveConstructs (place source : Nat)
  | moveAssigns (target source : Nat)
  /-- the new contents of the segment -/
  | uses (place : Nat) (contents : Bytes)
  | destroys (place : Nat) (system : System)

namespace FileProcess

def start (files : String → Option Bytes) : FileProcess where
  files := files
  opened := []
  objects := fun _ => none
  saved := []

def pathOf (process : FileProcess) (opening : Nat) : String :=
  process.opened.getD opening ""

/-- The bytes of a file that was opened. -/
def bytesOf (process : FileProcess) (opening : Nat) : Option Bytes :=
  process.files (process.pathOf opening)

def putFile (process : FileProcess) (path : String) (bytes : Option Bytes) :
    FileProcess :=
  { process with files := Function.update process.files path bytes }

def putObject (process : FileProcess) (place : Nat)
    (object : Option MappedObject) : FileProcess :=
  { process with objects := Function.update process.objects place object }

theorem putFile_files (process : FileProcess) (path : String)
    (bytes : Option Bytes) : (process.putFile path bytes).files =
      Function.update process.files path bytes := rfl

theorem putObject_objects (process : FileProcess) (place : Nat)
    (object : Option MappedObject) : (process.putObject place object).objects =
      Function.update process.objects place object := rfl

variable (boost : SegmentManager) (environ : Environment)

/-- The constructor.  After an exception there is no object. -/
def opens (process : FileProcess) (place : Nat) (system : System)
    (request : OpenRequest) : Option FileProcess :=
  match openPinnableMappedFile boost environ system request.forWriting
      ⟨process.files request.dataFilePath, []⟩ with
  | .ok file final =>
      some
        { files := Function.update process.files request.dataFilePath
            final.current
          opened := process.opened ++ [request.dataFilePath]
          objects := Function.update process.objects place
            (some (.constructed process.opened.length file))
          saved := process.saved }
  | .error fault final =>
      if fault.isException then
        some (process.putFile request.dataFilePath final.current)
      else none

def moveConstructs (process : FileProcess) (place source : Nat) :
    Option FileProcess :=
  (process.objects source).map fun o =>
    (process.putObject place (some o.moveConstructed)).putObject source
      (some o.movedFrom)

def moveAssigns (process : FileProcess) (target source : Nat) :
    Option FileProcess :=
  match process.objects target, process.objects source with
  | some old, some o =>
      if target = source then
        some (process.putObject source (some o.selfAssigned))
      else
        some ((process.putObject target
          (some (old.moveAssigned o))).putObject source (some o.movedFrom))
  | _, _ => none

/-- The segment is changed within its size, in the memory or in the mapped
file. -/
def uses (process : FileProcess) (place : Nat) (contents : Bytes) :
    Option FileProcess :=
  (process.objects place).map fun o =>
    match o.mappedRegion with
    | some (opening, memory) =>
        if contents.length = (segment memory).length then
          process.putObject place
            (some (o.withMemory opening (withSegment memory contents)))
        else process
    | none =>
        match o.fileMappedRegion with
        | some opening =>
            match process.bytesOf opening with
            | some bytes =>
                if contents.length = (segment bytes).length then
                  process.putFile (process.pathOf opening)
                    (some (withSegment bytes contents))
                else process
            | none => process
        | none => process

/-- The destructor.  Mapping a file through a handle of no file throws, and
an exception in the destructor ends the process. -/
def destroys (process : FileProcess) (place : Nat) (system : System) :
    Option FileProcess :=
  match process.objects place with
  | none => none
  | some o =>
      if o.writable then
        match o.opening, o.savesTo with
        | some opening, some target =>
            match closePinnableMappedFile system o.file
                ⟨process.bytesOf target, []⟩ with
            | .ok _ final =>
                some
                  { files := Function.update process.files
                      (process.pathOf target) final.current
                    opened := process.opened
                    objects := Function.update process.objects place none
                    saved := process.saved ++
                      [{ opening := opening
                         path := process.pathOf target
                         contents := workedOn (process.bytesOf target) o.file
                         bytes := final.current }] }
            | .error _ _ => none
        | _, _ => none
      else some (process.putObject place none)

def step (process : FileProcess) : FileEvent → Option FileProcess
  | .opens place system request =>
      process.opens boost environ place system request
  | .moveConstructs place source => process.moveConstructs place source
  | .moveAssigns target source => process.moveAssigns target source
  | .uses place contents => process.uses place contents
  | .destroys place system => process.destroys place system

/-! ## The property -/

/-- The file that the object at this address has to save. -/
def ownedAt (process : FileProcess) (place : Nat) : Option Nat :=
  (process.objects place).bind MappedObject.owned

/-- How often a file was written out. -/
def timesSaved (process : FileProcess) (opening : Nat) : Nat :=
  process.saved.countP fun record => record.opening = opening

/-- A file is owned by one object and was not written out, or it was written
out once and nobody owns it any more. -/
def Settled (process : FileProcess) (opening : Nat) : Prop :=
  (∃! place, process.ownedAt place = some opening) ∧
      process.timesSaved opening = 0 ∨
    (∀ place, process.ownedAt place ≠ some opening) ∧
      process.timesSaved opening = 1

/-- The contents with which a file was left were written to its path and
marked as clean. -/
def WrittenOut (process : FileProcess) (record : SavedFile) : Prop :=
  record.path = process.pathOf record.opening ∧
    record.bytes = some (record.contents.set headerDirtyBitOffset 0)

/-- Every file that was opened is written out once, when the object that owns
it last is destroyed. -/
structure SavesOnce (process : FileProcess) : Prop where
  settled : ∀ opening, opening < process.opened.length →
    process.Settled opening
  written : ∀ record ∈ process.saved, process.WrittenOut record

/-- What the language asks: objects are made where there are none, and used
and destroyed where there are some.  When an object is destroyed the system
lets it map its file. -/
def Permitted (process : FileProcess) : FileEvent → Prop
  | .opens place _ _ => process.objects place = none
  | .moveConstructs place source =>
      process.objects place = none ∧ process.objects source ≠ none
  | .moveAssigns target source =>
      process.objects target ≠ none ∧ process.objects source ≠ none
  | .uses place _ => process.objects place ≠ none
  | .destroys place system =>
      process.objects place ≠ none ∧ system.mapFile = none

/-- An object that is destroyed in heap or locked mode has a handle of its own
file, which has the size of the memory and zeros in the blocks in which the
memory has them. -/
structure Savable (process : FileProcess) (o : MappedObject) (opening : Nat)
    (memory : Bytes) : Prop where
  handle : o.fileMapping.map process.pathOf = some (process.pathOf opening)
  fits : ∀ bytes, process.bytesOf opening = some bytes →
    memory.length = bytes.length ∧
      ∀ number, ZeroBlock memory number → ZeroBlock bytes number

/-- The condition on the state before an event.  The target of an assignment
has no file to save. -/
def Careful (process : FileProcess) : FileEvent → Prop
  | .moveAssigns target _ => process.ownedAt target = none
  | .destroys place _ => ∀ o opening memory,
      process.objects place = some o → o.writable = true →
        o.mappedRegion = some (opening, memory) →
          process.Savable o opening memory
  | _ => True

end FileProcess

/-! ## Opening and closing -/

section Programs

variable {boost : SegmentManager} {environ : Environment} {system : System}
  {request : OpenRequest} {bytes : Bytes}

/-- What a constructor that returns has made. -/
structure Constructed (request : OpenRequest) (file : PinnableMappedFile)
    (final : Option Bytes) : Prop where
  writable : file.writable = request.writable
  present : final ≠ none
  whole : ∀ memory, file.memory = some memory →
    dbSizeMultipleRequirement ∣ memory.length

/-- Marking and using a file does not remove it. -/
theorem passes_markAndUse_constructed :
    Passes (fun _ => True) (markDatabaseFile system request) (some bytes)
      (fun _ marked => Passes (fun _ => True) (useDatabaseFile system request)
        marked (Constructed request) (fun _ final => final ≠ none))
      (fun _ final => final ≠ none) := by
  have used : ∀ bytes : Bytes, Passes (fun _ => True)
      (useDatabaseFile system request) (some bytes) (Constructed request)
      (fun _ final => final ≠ none) := by
    intro bytes
    apply passes_useDatabaseFile
    · intro _
      exact ⟨rfl, Option.some_ne_none _, fun _ isMemory => nomatch isMemory⟩
    · intro _ _ _
      exact Option.some_ne_none _
    · intro _ loads
      refine ⟨rfl, Option.some_ne_none _, ?_⟩
      intro memory isMemory
      rw [← Option.some.inj isMemory]
      exact loads.blocks
    · intro _ _ _ _ _
      split
      · exact ⟨trivial, Option.some_ne_none _⟩
      · exact Option.some_ne_none _
    · intro _ _ _ _
      exact Option.some_ne_none _
  apply passes_markDatabaseFile
  · intro _
    exact used bytes
  · intro _ _ _
    exact Option.some_ne_none _
  · intro _ _
    exact ⟨trivial, used _⟩

/-- A constructor leaves the file there, if it does not fail before it makes
it. -/
theorem passes_open_constructed (found : Option Bytes) :
    Passes (fun _ => True)
      (openPinnableMappedFile boost environ system request.forWriting) found
      (Constructed request.forWriting)
      (fun _ final => found ≠ none → final ≠ none) := by
  cases found with
  | none =>
      have vacuous : ∀ final : Option Bytes,
          (none : Option Bytes) ≠ none → final ≠ none :=
        fun _ notNone => absurd rfl notNone
      apply passes_openAbsent
      · intro _ _
        exact vacuous _
      · intro _ _
        apply passes_createDatabaseFile trivial
        · intro _ _
          exact vacuous _
        · intro _
          refine ⟨trivial, fun _ _ => vacuous _, fun _ _ => ?_⟩
          apply passes_pokeAll (fun _ => True) (fun _ _ => trivial)
            (fun _ _ _ _ => trivial) _ trivial
          intro constructed _ _
          apply passes_copyTo (fun _ => True) (fun _ _ => trivial)
            (fun _ _ _ _ _ => trivial) _ trivial
          intro created _ _
          apply passes_markAndUse_constructed.imp
          · intro _ marked uses
            exact uses.imp (fun _ _ made => made) fun _ _ _ => vacuous _
          · intro _ _ _
            exact vacuous _
  | some bytes =>
      have stays : ∀ {final : Option Bytes}, final ≠ none →
          some bytes ≠ none → final ≠ none := fun present _ => present
      apply passes_openExisting
      · intro _ _
        exact stays (Option.some_ne_none _)
      · intro _ readOnly
        cases readOnly
      · intro admitted _
        have use : ∀ grown : Bytes, Passes (fun _ => True)
            (markDatabaseFile system request.forWriting) (some grown)
            (fun _ marked => Passes (fun _ => True)
              (useDatabaseFile system request.forWriting) marked
              (Constructed request.forWriting)
              (fun _ final => some bytes ≠ none → final ≠ none))
            (fun _ final => some bytes ≠ none → final ≠ none) := by
          intro grown
          apply passes_markAndUse_constructed.imp
          · intro _ marked uses
            exact uses.imp (fun _ _ made => made) fun _ _ => stays
          · intro _ _
            exact stays
        apply passes_growDatabaseFile admitted.header.long
        · intro _ _ _
          exact stays (Option.some_ne_none _)
        · intro _ _
          refine ⟨trivial, fun _ _ => stays (Option.some_ne_none _),
            fun _ => ?_⟩
          apply passes_pokeAll (fun _ => True) (fun _ _ => trivial)
            (fun _ _ _ _ => trivial) _ trivial
          intro grown _ _
          exact use grown
        · intro _ _ _
          exact stays (Option.some_ne_none _)
        · intro _ _
          exact use bytes

/-- A destructor that can map its file saves the contents and marks the file
as clean. -/
theorem passes_close_saved {file : PinnableMappedFile}
    (isWritable : file.writable = true) (mapped : system.mapFile = none)
    (fits : ∀ memory, file.memory = some memory →
      dbSizeMultipleRequirement ∣ memory.length ∧
        memory.length = bytes.length ∧
          ∀ number, ZeroBlock memory number → ZeroBlock bytes number) :
    Passes (fun _ => True) (closePinnableMappedFile system file) (some bytes)
      (fun _ final => final = some
        ((workedOn (some bytes) file).set headerDirtyBitOffset 0))
      (fun _ _ => False) := by
  rw [closePinnableMappedFile, if_pos isWritable]
  apply passes_bind
  cases isMemory : file.memory with
  | none =>
      have same : workedOn (some bytes) file = bytes := by
        rw [workedOn, isMemory]
        rfl
      apply passes_pure
      rw [same]
      exact passes_poke trivial rfl
  | some memory =>
      have other : workedOn (some bytes) file = memory := by
        rw [workedOn, isMemory]
        rfl
      have fitsMemory := fits memory isMemory
      rcases fitsMemory with ⟨whole, sameLength, zeros⟩
      apply passes_bind
      apply passes_throwIf
      · intro notMapped
        exact notMapped mapped
      · intro _
        rw [sameLength] at whole
        apply (passes_saveDatabaseFile whole sameLength).imp _
          fun _ _ failed => failed
        intro _ final isSaved
        rcases isSaved with ⟨saved, isFinal, savedFrom⟩
        rw [isFinal, (savedFrom.eq_iff sameLength).mpr zeros, other]
        exact passes_poke trivial rfl

end Programs

/-! ## The invariant -/

/-- What holds of an object that has a file to save: it holds the lock of the
file, and its memory consists of whole blocks. -/
structure MappedObject.Owner (o : MappedObject) : Prop where
  locked : o.mappedFileLock = o.opening
  opened : o.opening ≠ none
  whole : ∀ region, o.mappedRegion = some region →
    dbSizeMultipleRequirement ∣ region.2.length

namespace FileProcess

/-- What every state of a run satisfies. -/
structure Sound (process : FileProcess) : Prop where
  owner : ∀ place o, process.objects place = some o → o.writable = true →
    o.Owner
  bounded : ∀ place opening, process.ownedAt place = some opening →
    opening < process.opened.length
  present : ∀ opening, opening < process.opened.length →
    process.bytesOf opening ≠ none
  settled : ∀ opening, opening < process.opened.length →
    process.Settled opening
  saved : ∀ record ∈ process.saved,
    record.opening < process.opened.length ∧ process.WrittenOut record

theorem start_sound (files : String → Option Bytes) :
    (start files).Sound where
  owner := fun _ _ isObject => nomatch isObject
  bounded := fun _ _ isOwned => nomatch isOwned
  present := fun opening below => absurd below (Nat.not_lt_zero opening)
  settled := fun opening below => absurd below (Nat.not_lt_zero opening)
  saved := fun _ member => nomatch member

variable {process next : FileProcess} {place : Nat}

@[simp]
theorem ownedAt_putObject (object : Option MappedObject) :
    (process.putObject place object).ownedAt =
      Function.update process.ownedAt place
        (object.bind MappedObject.owned) := by
  funext other
  rw [ownedAt, putObject_objects]
  by_cases isPlace : other = place
  · rw [isPlace, Function.update_self, Function.update_self]
  · rw [Function.update_of_ne isPlace, Function.update_of_ne isPlace]
    rfl

theorem ownedAt_of_object {o : MappedObject}
    (isObject : process.objects place = some o) :
    process.ownedAt place = o.owned := by
  rw [ownedAt, isObject]
  rfl

theorem ownedAt_of_none (isFree : process.objects place = none) :
    process.ownedAt place = none := by
  rw [ownedAt, isFree]
  rfl

/-- Files may be written when the number of every path stays the same. -/
theorem present_putFile {path : String} {bytes : Option Bytes}
    (stays : process.files path ≠ none → bytes ≠ none) {other : String}
    (present : process.files other ≠ none) :
    (process.putFile path bytes).files other ≠ none := by
  rw [putFile_files]
  by_cases isPath : other = path
  · rw [isPath, Function.update_self]
    rw [isPath] at present
    exact stays present
  · rw [Function.update_of_ne isPath]
    exact present

/-- An event that saves nothing and at most passes the files on from one place
to another. -/
theorem Sound.rearranged (sound : process.Sound)
    (sameOpened : next.opened = process.opened)
    (sameSaved : next.saved = process.saved)
    (present : ∀ path, process.files path ≠ none → next.files path ≠ none)
    (owner : ∀ place o, next.objects place = some o → o.writable = true →
      o.Owner)
    (places : Equiv.Perm Nat)
    (owned : ∀ place, next.ownedAt place = process.ownedAt (places place)) :
    next.Sound where
  owner := owner
  bounded := by
    intro place opening isOwned
    rw [owned] at isOwned
    rw [sameOpened]
    exact sound.bounded _ opening isOwned
  present := by
    intro opening below
    rw [sameOpened] at below
    rw [bytesOf, pathOf, sameOpened]
    exact present _ (sound.present opening below)
  settled := by
    intro opening below
    rw [sameOpened] at below
    have isSettled := sound.settled opening below
    rw [Settled, timesSaved, sameSaved]
    apply isSettled.imp
    · intro owning
      refine ⟨?_, owning.2⟩
      apply (places.existsUnique_congr ?_).mpr owning.1
      intro place
      rw [owned]
    · intro left
      refine ⟨fun place isOwned => ?_, left.2⟩
      rw [owned] at isOwned
      exact left.1 _ isOwned
  saved := by
    intro record member
    rw [sameSaved] at member
    have written := sound.saved record member
    rw [sameOpened, WrittenOut, pathOf, sameOpened]
    exact written

/-- The file passes from the source to the target, which has none. -/
theorem ownedAt_moved {target source : Nat} {moved left : MappedObject}
    (isFree : process.ownedAt target = none)
    (isMoved : moved.owned = process.ownedAt source)
    (isLeft : left.owned = none) (place : Nat) :
    ((process.putObject target (some moved)).putObject source
        (some left)).ownedAt place =
      process.ownedAt (Equiv.swap target source place) := by
  rw [ownedAt_putObject, ownedAt_putObject, Option.bind_some, Option.bind_some,
    isMoved, isLeft]
  by_cases isSource : place = source
  · rw [isSource, Function.update_self, Equiv.swap_apply_right, isFree]
  · rw [Function.update_of_ne isSource]
    by_cases isTarget : place = target
    · rw [isTarget, Function.update_self, Equiv.swap_apply_left]
    · rw [Function.update_of_ne isTarget,
        Equiv.swap_apply_of_ne_of_ne isTarget isSource]

/-- The objects of a state into which one was put. -/
theorem owner_putObject {object : Option MappedObject}
    (owner : ∀ place o, process.objects place = some o → o.writable = true →
      o.Owner)
    (ofObject : ∀ o, object = some o → o.writable = true → o.Owner) :
    ∀ other o, (process.putObject place object).objects other = some o →
      o.writable = true → o.Owner := by
  intro other o isObject
  rw [putObject_objects] at isObject
  by_cases isPlace : other = place
  · rw [isPlace, Function.update_self] at isObject
    exact ofObject o isObject
  · rw [Function.update_of_ne isPlace] at isObject
    exact owner other o isObject

/-- Moving an object to a place that has no file to save. -/
theorem Sound.moved (sound : process.Sound) {target source : Nat}
    {o moved : MappedObject} (isFree : process.ownedAt target = none)
    (isSource : process.objects source = some o)
    (sameLock : moved.mappedFileLock = o.mappedFileLock)
    (sameRegion : moved.mappedRegion = o.mappedRegion)
    (sameOpening : moved.opening = o.opening)
    (sameWritable : moved.writable = o.writable) :
    ((process.putObject target (some moved)).putObject source
      (some o.movedFrom)).Sound := by
  refine sound.rearranged rfl rfl (fun _ present => present) ?_
    (Equiv.swap target source) ?_
  · apply owner_putObject
    · apply owner_putObject sound.owner
      intro other isMoved writable
      rw [← Option.some.inj isMoved] at writable ⊢
      rw [sameWritable] at writable
      have owner := sound.owner source o isSource writable
      exact ⟨by rw [sameLock, sameOpening]; exact owner.locked,
        by rw [sameOpening]; exact owner.opened,
        by rw [sameRegion]; exact owner.whole⟩
    · intro other isLeft writable
      rw [← Option.some.inj isLeft] at writable
      cases writable
  · apply ownedAt_moved isFree _ rfl
    rw [ownedAt_of_object isSource, MappedObject.owned, MappedObject.owned,
      sameWritable, sameOpening]

theorem Sound.moveConstructs (sound : process.Sound) {source : Nat}
    (isFree : process.objects place = none)
    (stepped : process.moveConstructs place source = some next) :
    next.Sound := by
  rw [FileProcess.moveConstructs, Option.map_eq_some_iff] at stepped
  rcases stepped with ⟨o, isSource, isNext⟩
  rw [← isNext]
  exact sound.moved (ownedAt_of_none isFree) isSource rfl rfl rfl rfl

/-- An object that has nothing to save may be put anywhere where there is
nothing to save. -/
theorem Sound.putObject (sound : process.Sound) {object : Option MappedObject}
    (isFree : process.ownedAt place = none)
    (nothing : object.bind MappedObject.owned = none)
    (owner : ∀ o, object = some o → o.writable = true → o.Owner) :
    (process.putObject place object).Sound := by
  refine sound.rearranged rfl rfl (fun _ present => present)
    (owner_putObject sound.owner owner) (Equiv.refl Nat) ?_
  intro other
  rw [ownedAt_putObject, nothing, Equiv.refl_apply]
  by_cases isPlace : other = place
  · rw [isPlace, Function.update_self, isFree]
  · rw [Function.update_of_ne isPlace]

theorem Sound.moveAssigns (sound : process.Sound) {target source : Nat}
    (isFree : process.ownedAt target = none)
    (stepped : process.moveAssigns target source = some next) :
    next.Sound := by
  rw [FileProcess.moveAssigns] at stepped
  split at stepped
  · rename_i old o isTarget isSource
    split at stepped
    · rename_i isSelf
      rw [← Option.some.inj stepped]
      rw [isSelf] at isFree
      apply sound.putObject isFree rfl
      intro other isOther writable
      rw [← Option.some.inj isOther] at writable
      cases writable
    · rw [← Option.some.inj stepped]
      exact sound.moved isFree isSource rfl rfl rfl rfl
  · cases stepped

/-- Writing a file that stays there. -/
theorem Sound.putFile (sound : process.Sound) {path : String}
    {bytes : Option Bytes}
    (stays : process.files path ≠ none → bytes ≠ none) :
    (process.putFile path bytes).Sound :=
  sound.rearranged rfl rfl (fun _ => present_putFile stays) sound.owner
    (Equiv.refl Nat) fun _ => rfl

theorem Sound.uses (sound : process.Sound) {contents : Bytes}
    (stepped : process.uses place contents = some next) : next.Sound := by
  rw [FileProcess.uses, Option.map_eq_some_iff] at stepped
  rcases stepped with ⟨o, isObject, isNext⟩
  rw [← isNext]
  split
  · rename_i opening memory isRegion
    split
    · rename_i sameLength
      have sameOpening : (o.withMemory opening
          (withSegment memory contents)).opening = o.opening := by
        rw [MappedObject.opening, MappedObject.opening, isRegion]
        rfl
      have sameOwned : (o.withMemory opening
          (withSegment memory contents)).owned = o.owned := by
        rw [MappedObject.owned, MappedObject.owned, sameOpening]
        rfl
      refine sound.rearranged rfl rfl (fun _ present => present) ?_
        (Equiv.refl Nat) ?_
      · apply owner_putObject sound.owner
        intro used isUsed writable
        rw [← Option.some.inj isUsed] at writable ⊢
        have owner := sound.owner place o isObject writable
        refine ⟨?_, ?_, ?_⟩
        · rw [sameOpening]
          exact owner.locked
        · rw [sameOpening]
          exact owner.opened
        · intro region usedRegion
          rw [← Option.some.inj usedRegion, withSegment_length sameLength]
          exact owner.whole _ isRegion
      · intro other
        rw [ownedAt_putObject, Option.bind_some, sameOwned,
          ← ownedAt_of_object isObject, Function.update_eq_self,
          Equiv.refl_apply]
    · exact sound
  · split
    · split
      · split
        · exact sound.putFile fun _ => Option.some_ne_none _
        · exact sound
      · exact sound
    · exact sound

/-! ### Opening -/

section Opened

variable {request : OpenRequest} {file : PinnableMappedFile}
  {content : Option Bytes}

theorem opening_constructed (opening : Nat) (file : PinnableMappedFile) :
    (MappedObject.constructed opening file).opening = some opening := by
  rw [MappedObject.opening, MappedObject.constructed]
  cases file.memory <;> rfl

theorem owned_constructed (opening : Nat) (isWritable : file.writable = true) :
    (MappedObject.constructed opening file).owned = some opening :=
  MappedObject.owned_eq_some_iff.mpr
    ⟨isWritable, opening_constructed opening file⟩

theorem owner_constructed (opening : Nat) (isWritable : file.writable = true)
    (made : Constructed request file content) :
    (MappedObject.constructed opening file).Owner where
  locked := by
    rw [opening_constructed]
    exact if_pos isWritable
  opened := by
    rw [opening_constructed]
    exact Option.some_ne_none opening
  whole := by
    intro region isRegion
    have isMemory := Option.map_eq_some_iff.mp isRegion
    rcases isMemory with ⟨memory, isMemory, isPair⟩
    rw [← isPair]
    exact made.whole memory isMemory

/-- The files that were opened before keep their numbers. -/
theorem pathOf_concat {opening : Nat} {path : String}
    (sameOpened : next.opened = process.opened ++ [path])
    (below : opening < process.opened.length) :
    next.pathOf opening = process.pathOf opening := by
  rw [pathOf, pathOf, sameOpened]
  exact List.getD_append _ _ _ _ below

/-- A new object owns the file that it has opened. -/
theorem Sound.opened (sound : process.Sound) {path : String}
    (isFree : process.objects place = none)
    (isWritable : file.writable = true)
    (made : Constructed request file content)
    (isNext : next =
      { files := Function.update process.files path content
        opened := process.opened ++ [path]
        objects := Function.update process.objects place
          (some (.constructed process.opened.length file))
        saved := process.saved }) :
    next.Sound := by
  have sameOpened : next.opened = process.opened ++ [path] := by
    rw [isNext]
  have length : next.opened.length = process.opened.length + 1 := by
    rw [sameOpened, List.length_append, List.length_singleton]
  have owned : next.ownedAt = Function.update process.ownedAt place
      (some process.opened.length) := by
    have put : (process.putObject place
        (some (.constructed process.opened.length file))).ownedAt = _ :=
      ownedAt_putObject _
    rw [Option.bind_some, owned_constructed _ isWritable] at put
    rw [← put, isNext]
    rfl
  have wasFree := ownedAt_of_none isFree
  have files : next.files = Function.update process.files path content := by
    rw [isNext]
  -- the files that were opened before have the owners that they had
  have ownedBefore : ∀ {opening other : Nat},
      opening < process.opened.length →
        (next.ownedAt other = some opening ↔
          process.ownedAt other = some opening) := by
    intro opening other below
    rw [owned]
    by_cases isPlace : other = place
    · rw [isPlace, Function.update_self, wasFree]
      constructor
      · intro isLast
        rw [Option.some.inj isLast] at below
        exact absurd below (Nat.lt_irrefl _)
      · intro isNone
        cases isNone
    · rw [Function.update_of_ne isPlace]
  refine ⟨?_, ?_, ?_, ?_, ?_⟩
  · rw [isNext]
    apply owner_putObject sound.owner
    intro o isNew _
    rw [← Option.some.inj isNew]
    exact owner_constructed _ isWritable made
  · intro other opening isOwned
    rw [length]
    by_cases isPlace : other = place
    · rw [owned, isPlace, Function.update_self] at isOwned
      rw [← Option.some.inj isOwned]
      exact Nat.lt_succ_self _
    · rw [owned, Function.update_of_ne isPlace] at isOwned
      exact Nat.lt_succ_of_lt (sound.bounded other opening isOwned)
  · intro opening below
    rw [length] at below
    rw [bytesOf, files]
    rcases Nat.lt_succ_iff_lt_or_eq.mp below with isBefore | isLast
    · have present := sound.present opening isBefore
      rw [pathOf_concat sameOpened isBefore]
      exact present_putFile (fun _ => made.present) present
    · have isPath : next.pathOf opening = path := by
        rw [pathOf, sameOpened, isLast, List.getD_eq_getElem?_getD,
          List.getElem?_concat_length]
        rfl
      rw [isPath, Function.update_self]
      exact made.present
  · intro opening below
    rw [length] at below
    have sameSaved : next.timesSaved opening = process.timesSaved opening := by
      rw [isNext]
      rfl
    rw [Settled, sameSaved]
    rcases Nat.lt_succ_iff_lt_or_eq.mp below with isBefore | isLast
    · have isSettled := sound.settled opening isBefore
      apply isSettled.imp
      · intro owning
        refine ⟨?_, owning.2⟩
        exact (existsUnique_congr fun _ => ownedBefore isBefore).mpr owning.1
      · intro left
        refine ⟨fun other isOwned => ?_, left.2⟩
        exact left.1 other ((ownedBefore isBefore).mp isOwned)
    · left
      constructor
      · refine ⟨place, ?_, ?_⟩
        · dsimp only
          rw [owned, Function.update_self, isLast]
        · intro other isOwned
          by_contra isOther
          rw [owned, Function.update_of_ne isOther, isLast] at isOwned
          exact absurd (sound.bounded other _ isOwned) (Nat.lt_irrefl _)
      · apply List.countP_eq_zero.mpr
        intro record member
        have isBefore := (sound.saved record member).1
        rw [decide_eq_true_iff]
        omega
  · intro record member
    have isSaved : next.saved = process.saved := by
      rw [isNext]
    rw [isSaved] at member
    have written := sound.saved record member
    rw [length, WrittenOut, pathOf_concat sameOpened written.1]
    exact ⟨Nat.lt_succ_of_lt written.1, written.2⟩

variable {boost : SegmentManager} {environ : Environment} {system : System}

theorem Sound.opens (sound : process.Sound)
    (isFree : process.objects place = none)
    (stepped : process.opens boost environ place system request = some next) :
    next.Sound := by
  have passes : Passes (fun _ => True)
      (openPinnableMappedFile boost environ system request.forWriting)
      (process.files request.dataFilePath) _ _ := passes_open_constructed _
  have ends := passes.ends trivial
  rw [FileProcess.opens] at stepped
  cases ran : openPinnableMappedFile boost environ system request.forWriting
      ⟨process.files request.dataFilePath, []⟩ with
  | ok file final =>
      rw [ran] at stepped
      have made := (ends.of_ok ran).2
      exact sound.opened isFree made.writable made
        (Option.some.inj stepped).symm
  | error fault final =>
      rw [ran] at stepped
      dsimp only at stepped
      split at stepped
      · rw [← Option.some.inj stepped]
        exact sound.putFile (ends.of_error ran).2
      · cases stepped

end Opened

/-! ### Destroying -/

section Destroyed

variable {system : System} {o : MappedObject}

/-- The owner is gone when its file is written out. -/
theorem Sound.destroyed (sound : process.Sound) (record : SavedFile)
    (isOwned : process.ownedAt place = some record.opening)
    (written : process.WrittenOut record)
    (isNext : next =
      { files := Function.update process.files record.path record.bytes
        opened := process.opened
        objects := Function.update process.objects place none
        saved := process.saved ++ [record] }) :
    next.Sound := by
  have sameOpened : next.opened = process.opened := by
    rw [isNext]
  have owned : next.ownedAt = Function.update process.ownedAt place none := by
    have put : (process.putObject place none).ownedAt = _ :=
      ownedAt_putObject none
    rw [Option.bind_none] at put
    rw [← put, isNext]
    rfl
  have timesSaved : ∀ opening, next.timesSaved opening =
      process.timesSaved opening +
        if record.opening = opening then 1 else 0 := by
    intro opening
    rw [FileProcess.timesSaved, isNext, List.countP_append,
      List.countP_singleton]
    simp only [decide_eq_true_iff]
    rfl
  refine ⟨?_, ?_, ?_, ?_, ?_⟩
  · rw [isNext]
    apply owner_putObject sound.owner
    intro o isNone _
    cases isNone
  · intro other opening isOwner
    rw [sameOpened]
    by_cases isPlace : other = place
    · rw [owned, isPlace, Function.update_self] at isOwner
      cases isOwner
    · rw [owned, Function.update_of_ne isPlace] at isOwner
      exact sound.bounded other opening isOwner
  · intro opening below
    rw [sameOpened] at below
    have present := sound.present opening below
    rw [bytesOf, pathOf, sameOpened, isNext]
    refine present_putFile (fun _ => ?_) present
    rw [written.2]
    exact Option.some_ne_none _
  · intro opening below
    rw [sameOpened] at below
    rw [Settled, timesSaved]
    rcases sound.settled opening below with ⟨isOnce, notSaved⟩ | ⟨nobody, once⟩
    · by_cases isFile : record.opening = opening
      · right
        rw [if_pos isFile, notSaved]
        refine ⟨fun other isOwner => ?_, rfl⟩
        by_cases isPlace : other = place
        · rw [owned, isPlace, Function.update_self] at isOwner
          cases isOwner
        · rw [owned, Function.update_of_ne isPlace] at isOwner
          rw [isFile] at isOwned
          exact isPlace (isOnce.unique isOwner isOwned)
      · left
        rw [if_neg isFile, notSaved]
        refine ⟨(existsUnique_congr fun other => ?_).mpr isOnce, rfl⟩
        rw [owned]
        by_cases isPlace : other = place
        · rw [isPlace, Function.update_self, isOwned]
          constructor
          · intro isNone
            cases isNone
          · intro isOther
            exact absurd (Option.some.inj isOther) isFile
        · rw [Function.update_of_ne isPlace]
    · right
      have isOther : record.opening ≠ opening := by
        intro isFile
        rw [isFile] at isOwned
        exact nobody place isOwned
      rw [if_neg isOther]
      refine ⟨fun other isOwner => ?_, once⟩
      by_cases isPlace : other = place
      · rw [owned, isPlace, Function.update_self] at isOwner
        cases isOwner
      · rw [owned, Function.update_of_ne isPlace] at isOwner
        exact nobody other isOwner
  · intro other member
    have isSaved : next.saved = process.saved ++ [record] := by
      rw [isNext]
    rw [isSaved] at member
    rw [WrittenOut, pathOf, sameOpened]
    rcases List.mem_append.mp member with isBefore | isLast
    · exact sound.saved other isBefore
    · rw [List.mem_singleton.mp isLast]
      exact ⟨sound.bounded place _ isOwned, written⟩

/-- The destructor writes through a handle of the path of its file. -/
theorem savesTo_path {opening : Nat} (isOpening : o.opening = some opening)
    (handle : ∀ memory, o.mappedRegion = some (opening, memory) →
      o.fileMapping.map process.pathOf = some (process.pathOf opening)) :
    ∃ target, o.savesTo = some target ∧
      process.pathOf target = process.pathOf opening := by
  rw [MappedObject.opening] at isOpening
  rw [MappedObject.savesTo]
  cases isRegion : o.mappedRegion with
  | none =>
      rw [isRegion] at isOpening
      exact ⟨opening, isOpening, rfl⟩
  | some region =>
      rw [isRegion] at isOpening
      have isPair : o.mappedRegion = some (opening, region.2) := by
        rw [isRegion, ← Option.some.inj isOpening]
      exact Option.map_eq_some_iff.mp (handle region.2 isPair)

/-- A destructor that is permitted and careful does not fail. -/
theorem Sound.destroys (sound : process.Sound)
    (permitted : process.Permitted (.destroys place system))
    (careful : process.Careful (.destroys place system)) :
    ∃ next, process.destroys place system = some next ∧ next.Sound := by
  have isThere := Option.ne_none_iff_exists'.mp permitted.1
  rcases isThere with ⟨o, isObject⟩
  rw [FileProcess.destroys, isObject]
  dsimp only
  split
  · rename_i isWritable
    have owner := sound.owner place o isObject isWritable
    have isOpened := Option.ne_none_iff_exists'.mp owner.opened
    rcases isOpened with ⟨opening, isOpening⟩
    have savable : ∀ memory, o.mappedRegion = some (opening, memory) →
        process.Savable o opening memory := fun memory isRegion =>
      careful o opening memory isObject isWritable isRegion
    have isTarget := savesTo_path isOpening fun memory isRegion =>
      (savable memory isRegion).handle
    rcases isTarget with ⟨target, isTarget, samePath⟩
    have isOwned : process.ownedAt place = some opening := by
      rw [ownedAt_of_object isObject]
      exact MappedObject.owned_eq_some_iff.mpr ⟨isWritable, isOpening⟩
    have isPresent := Option.ne_none_iff_exists'.mp
      (sound.present opening (sound.bounded place opening isOwned))
    rcases isPresent with ⟨bytes, isBytes⟩
    have targetBytes : process.bytesOf target = some bytes := by
      rw [bytesOf, samePath]
      exact isBytes
    have fits : ∀ memory, o.file.memory = some memory →
        dbSizeMultipleRequirement ∣ memory.length ∧
          memory.length = bytes.length ∧
            ∀ number, ZeroBlock memory number → ZeroBlock bytes number := by
      intro memory isMemory
      have isRegion := Option.map_eq_some_iff.mp isMemory
      rcases isRegion with ⟨region, isRegion, isPair⟩
      have isPair : o.mappedRegion = some (opening, memory) := by
        rw [MappedObject.opening, isRegion] at isOpening
        rw [isRegion, ← Option.some.inj isOpening, ← isPair]
      exact ⟨owner.whole _ isPair, (savable memory isPair).fits bytes isBytes⟩
    have writable : o.file.writable = true := isWritable
    have ends := (passes_close_saved writable permitted.2 fits).ends trivial
    rw [isOpening, isTarget]
    dsimp only
    rw [targetBytes]
    cases ran : closePinnableMappedFile system o.file ⟨some bytes, []⟩ with
    | error fault final => exact (ends.of_error ran).2.elim
    | ok value final =>
        have written := (ends.of_ok ran).2
        let record : SavedFile :=
          { opening := opening
            path := process.pathOf target
            contents := workedOn (some bytes) o.file
            bytes := final.current }
        exact ⟨_, rfl, sound.destroyed record isOwned ⟨samePath, written⟩ rfl⟩
  · rename_i notWritable
    refine ⟨_, rfl, sound.putObject ?_ rfl (fun _ isNone => nomatch isNone)⟩
    rw [ownedAt_of_object isObject]
    exact if_neg notWritable

end Destroyed

/-! ### Runs -/

section Runs

variable {boost : SegmentManager} {environ : Environment}

/-- Every event that is permitted and careful keeps the invariant. -/
theorem Sound.step (sound : process.Sound) {event : FileEvent}
    (permitted : process.Permitted event) (careful : process.Careful event)
    (stepped : process.step boost environ event = some next) :
    next.Sound := by
  cases event with
  | opens place system request => exact sound.opens permitted stepped
  | moveConstructs place source =>
      exact sound.moveConstructs permitted.1 stepped
  | moveAssigns target source => exact sound.moveAssigns careful stepped
  | uses place contents => exact sound.uses stepped
  | destroys place system =>
      have destroyed := sound.destroys permitted careful
      rcases destroyed with ⟨other, isOther, otherSound⟩
      have isNext : some other = some next := isOther.symm.trans stepped
      rw [← Option.some.inj isNext]
      exact otherSound

end Runs

end FileProcess

/-- In every state that a run reaches in which no file is overwritten and every
object that is destroyed in heap or locked mode has a handle of its file, every
file that was opened is written out once, and such a destructor does not
fail. -/
theorem moved_files_saved_once (boost : SegmentManager) (environ : Environment)
    (files : String → Option Bytes) (events : List FileEvent)
    (process : FileProcess)
    (permitted : Runs.AllowedFrom (FileProcess.step boost environ)
      FileProcess.Permitted (FileProcess.start files) events)
    (careful : Runs.AllowedFrom (FileProcess.step boost environ)
      FileProcess.Careful (FileProcess.start files) events)
    (reached : Runs.run (FileProcess.step boost environ)
      (FileProcess.start files) events = some process) :
    process.SavesOnce ∧ ∀ place system,
      process.Permitted (.destroys place system) →
        process.Careful (.destroys place system) →
          process.destroys place system ≠ none := by
  have sound : process.Sound := by
    apply Runs.run_preserves FileProcess.Sound _
      (FileProcess.start_sound files) (permitted.and careful) reached
    intro state event next sound allowed stepped
    exact sound.step allowed.1 allowed.2 stepped
  constructor
  · exact ⟨sound.settled, fun record member => (sound.saved record member).2⟩
  · intro place system isPermitted isCareful
    have destroyed := sound.destroys isPermitted isCareful
    rcases destroyed with ⟨next, isNext, _⟩
    rw [isNext]
    exact Option.some_ne_none next

/-! ## Three runs -/

section Examples

namespace FileProcess

/-- The state after a file was opened that is used with these bytes. -/
def reopened (process : FileProcess) (place : Nat) (request : OpenRequest)
    (bytes : Bytes) : FileProcess where
  files := Function.update process.files request.dataFilePath (some bytes)
  opened := process.opened ++ [request.dataFilePath]
  objects := Function.update process.objects place
    (some (.constructed process.opened.length
      { writable := true
        memory := if request.mode = .mapped then none else some bytes }))
  saved := process.saved

variable {process : FileProcess} {place : Nat} {boost : SegmentManager}
  {environ : Environment} {request : OpenRequest} {bytes : Bytes}

theorem step_reopened (noSize : request.sharedFileSize = 0)
    (dirtyAllowed : request.allowDirty = true)
    (noPages : request.hugepagePaths = [])
    (header : ValidHeader environ bytes)
    (whole : dbSizeMultipleRequirement ∣ bytes.length)
    (isFile : process.files request.dataFilePath = some bytes) :
    process.step boost environ (.opens place grantingSystem request) =
      some (process.reopened place request
        (bytes.set headerDirtyBitOffset 1)) := by
  have passes : Passes (fun _ => True)
      (openPinnableMappedFile boost environ grantingSystem request.forWriting)
      (some bytes) _ _ :=
    passes_reopened noSize dirtyAllowed noPages header whole
  have ends := passes.ends trivial
  rw [FileProcess.step, FileProcess.opens, isFile]
  cases ran : openPinnableMappedFile boost environ grantingSystem
      request.forWriting ⟨some bytes, []⟩ with
  | error fault final => exact (ends.of_error ran).2.elim
  | ok file final =>
      have isOpened := (ends.of_ok ran).2
      dsimp only
      rw [isOpened.1, isOpened.2]
      rfl

theorem step_moveConstructs {source : Nat} {o : MappedObject}
    (isSource : process.objects source = some o) :
    process.step boost environ (.moveConstructs place source) =
      some ((process.putObject place (some o.moveConstructed)).putObject source
        (some o.movedFrom)) := by
  rw [FileProcess.step, FileProcess.moveConstructs, isSource]
  rfl

theorem step_moveAssigns {target source : Nat} {old o : MappedObject}
    (isTarget : process.objects target = some old)
    (isSource : process.objects source = some o) (isOther : target ≠ source) :
    process.step boost environ (.moveAssigns target source) =
      some ((process.putObject target
        (some (old.moveAssigned o))).putObject source (some o.movedFrom)) := by
  rw [FileProcess.step, FileProcess.moveAssigns, isTarget, isSource]
  exact if_neg isOther

/-- A destructor that has to map its file again needs a handle. -/
theorem destroys_eq_none {system : System} {o : MappedObject}
    (isObject : process.objects place = some o) (isWritable : o.writable = true)
    (noTarget : o.savesTo = none) : process.destroys place system = none := by
  rw [FileProcess.destroys, isObject]
  dsimp only
  rw [if_pos isWritable, noTarget]
  cases o.opening <;> rfl

end FileProcess

/-- The bytes of a file of one block in use. -/
def usedBlock : Bytes := oneBlock.set headerDirtyBitOffset 1

/-- A process in a system whose files have one block. -/
def oneBlockProcess : FileProcess :=
  .start fun _ => some oneBlock

/-- The object of the first file, in heap mode. -/
def heapObject (memory : Bytes) : MappedObject :=
  .constructed 0 { writable := true, memory := some memory }

theorem oneBlockProcess_opens (mode : MapMode) :
    oneBlockProcess.step sizeManager zeroEnvironment
        (.opens 0 grantingSystem (requestIn mode 0)) =
      some (oneBlockProcess.reopened 0 (requestIn mode 0) usedBlock) :=
  FileProcess.step_reopened rfl rfl rfl oneBlock_validHeader oneBlock_whole rfl

theorem FileProcess.object_ne_none {process : FileProcess} {place : Nat}
    {o : MappedObject} (isObject : process.objects place = some o) :
    process.objects place ≠ none := by
  rw [isObject]
  exact Option.some_ne_none o

/-- A file is opened in heap mode at one address and moved to another. -/
structure HeapMoved (first second : FileProcess) : Prop where
  opened : oneBlockProcess.step sizeManager zeroEnvironment
    (.opens 0 grantingSystem (requestIn .heap 0)) = some first
  moved : first.step sizeManager zeroEnvironment (.moveConstructs 1 0) =
    some second
  source : first.objects 0 = some (heapObject usedBlock)
  free : first.objects 1 = none
  left : second.objects 0 = some (heapObject usedBlock).movedFrom
  taken : second.objects 1 = some (heapObject usedBlock).moveConstructed
  bytes : second.bytesOf 0 = some usedBlock

theorem exists_heapMoved : ∃ first second, HeapMoved first second := by
  have isOpened := oneBlockProcess_opens .heap
  generalize isFirst : oneBlockProcess.reopened 0 (requestIn .heap 0)
    usedBlock = first at isOpened
  have inHeap : first.objects 0 = some (heapObject usedBlock) := by
    rw [← isFirst]
    rfl
  have isFree : first.objects 1 = none := by
    rw [← isFirst]
    rfl
  have isUsed : first.bytesOf 0 = some usedBlock := by
    rw [← isFirst]
    rfl
  exact ⟨first, _, isOpened, FileProcess.step_moveConstructs inHeap, inHeap,
    isFree, rfl, rfl, isUsed⟩

/-- A file is opened in heap mode, moved, and moved back. -/
theorem moved_files_saved_once_movedBack :
    ∃ process,
      Runs.run (FileProcess.step sizeManager zeroEnvironment) oneBlockProcess
        [.opens 0 grantingSystem (requestIn .heap 0), .moveConstructs 1 0,
          .moveAssigns 0 1] = some process ∧
      process.SavesOnce ∧ process.destroys 0 grantingSystem ≠ none := by
  rcases exists_heapMoved with ⟨first, second, heap⟩
  have isBack : second.step sizeManager zeroEnvironment (.moveAssigns 0 1) =
      some _ := FileProcess.step_moveAssigns heap.left heap.taken (by decide)
  generalize isThird : (second.putObject 0 _).putObject 1 _ = third at isBack
  have reached : Runs.run (FileProcess.step sizeManager zeroEnvironment)
      oneBlockProcess
        [.opens 0 grantingSystem (requestIn .heap 0), .moveConstructs 1 0,
          .moveAssigns 0 1] = some third := by
    rw [Runs.run_cons, heap.opened, Option.bind_some, Runs.run_cons, heap.moved,
      Option.bind_some, Runs.run_cons, isBack]
    rfl
  have allowed : ∀ allows : FileProcess → FileEvent → Prop,
      allows oneBlockProcess (.opens 0 grantingSystem (requestIn .heap 0)) →
        allows first (.moveConstructs 1 0) →
          allows second (.moveAssigns 0 1) →
            Runs.AllowedFrom (FileProcess.step sizeManager zeroEnvironment)
              allows oneBlockProcess
                [.opens 0 grantingSystem (requestIn .heap 0),
                  .moveConstructs 1 0, .moveAssigns 0 1] := by
    intro allows opens moves assigns
    apply (Runs.allowedFrom_cons_iff_of_some heap.opened).mpr
    refine ⟨opens, (Runs.allowedFrom_cons_iff_of_some heap.moved).mpr ?_⟩
    refine ⟨moves, (Runs.allowedFrom_cons_iff_of_some isBack).mpr ?_⟩
    exact ⟨assigns, trivial⟩
  have isObject : third.objects 0 = some ((heapObject usedBlock).movedFrom
      |>.moveAssigned (heapObject usedBlock).moveConstructed) := by
    rw [← isThird]
    rfl
  have bytesOf : third.bytesOf 0 = some usedBlock := by
    rw [← heap.bytes, ← isThird]
    rfl
  have saved := moved_files_saved_once sizeManager zeroEnvironment
    (fun _ => some oneBlock) _ third
    (allowed _ rfl
      ⟨heap.free, FileProcess.object_ne_none heap.source⟩
      ⟨FileProcess.object_ne_none heap.left,
        FileProcess.object_ne_none heap.taken⟩)
    (allowed _ trivial trivial (FileProcess.ownedAt_of_object heap.left))
    reached
  refine ⟨third, reached, saved.1, saved.2 0 grantingSystem
    ⟨FileProcess.object_ne_none isObject, rfl⟩ ?_⟩
  intro o opening memory isThere _ isRegion
  rw [isObject] at isThere
  rw [← Option.some.inj isThere] at isRegion ⊢
  have isPair : (0, usedBlock) = (opening, memory) := Option.some.inj isRegion
  have isOpening : 0 = opening := congrArg Prod.fst isPair
  have isMemory : usedBlock = memory := congrArg Prod.snd isPair
  rw [← isOpening, ← isMemory]
  refine ⟨rfl, ?_⟩
  intro bytes isBytes
  rw [bytesOf] at isBytes
  rw [← Option.some.inj isBytes]
  exact ⟨rfl, fun _ isZero => isZero⟩

/-- A file that is opened in heap mode cannot be written out from the object
to which it was moved: the destructor fails. -/
theorem moved_heap_file_not_saved :
    ∃ process,
      Runs.run (FileProcess.step sizeManager zeroEnvironment) oneBlockProcess
        [.opens 0 grantingSystem (requestIn .heap 0), .moveConstructs 1 0] =
          some process ∧
      Runs.AllowedFrom (FileProcess.step sizeManager zeroEnvironment)
        FileProcess.Permitted oneBlockProcess
        [.opens 0 grantingSystem (requestIn .heap 0), .moveConstructs 1 0,
          .destroys 1 grantingSystem] ∧
      process.ownedAt 1 = some 0 ∧
      process.destroys 1 grantingSystem = none := by
  rcases exists_heapMoved with ⟨first, second, heap⟩
  refine ⟨second, ?_, ?_, FileProcess.ownedAt_of_object heap.taken,
    FileProcess.destroys_eq_none heap.taken rfl rfl⟩
  · rw [Runs.run_cons, heap.opened, Option.bind_some, Runs.run_cons, heap.moved]
    rfl
  · apply (Runs.allowedFrom_cons_iff_of_some heap.opened).mpr
    refine ⟨rfl, (Runs.allowedFrom_cons_iff_of_some heap.moved).mpr ⟨?_, ?_⟩⟩
    · exact ⟨heap.free, FileProcess.object_ne_none heap.source⟩
    · have isThere := FileProcess.object_ne_none heap.taken
      exact ⟨⟨isThere, rfl⟩, fun _ _ => trivial⟩

/-- A request for another file. -/
def otherRequest : OpenRequest :=
  { requestIn .mapped 0 with dataFilePath := "/other/shared_memory.bin" }

/-- A file that is open in mapped mode is never written out when another file
is assigned to its object. -/
theorem overwritten_file_not_saved :
    ∃ process,
      Runs.run (FileProcess.step sizeManager zeroEnvironment) oneBlockProcess
        [.opens 0 grantingSystem (requestIn .mapped 0),
          .opens 1 grantingSystem otherRequest, .moveAssigns 0 1] =
            some process ∧
      process.timesSaved 0 = 0 ∧ (∀ place, process.ownedAt place ≠ some 0) ∧
      ¬ process.SavesOnce := by
  have isFirst := oneBlockProcess_opens .mapped
  generalize isProcess : oneBlockProcess.reopened 0 (requestIn .mapped 0)
    usedBlock = first at isFirst
  have isFile : first.files otherRequest.dataFilePath = some oneBlock := by
    have otherPath : otherRequest.dataFilePath ≠
        (requestIn .mapped 0).dataFilePath := by
      decide
    rw [← isProcess]
    exact Function.update_of_ne otherPath (some usedBlock) _
  have isSecond : first.step sizeManager zeroEnvironment
      (.opens 1 grantingSystem otherRequest) =
        some (first.reopened 1 otherRequest usedBlock) :=
    FileProcess.step_reopened rfl rfl rfl oneBlock_validHeader oneBlock_whole
      isFile
  generalize isOther : first.reopened 1 otherRequest usedBlock = second
    at isSecond
  have isTarget : second.objects 0 = some
      (.constructed 0 { writable := true, memory := none }) := by
    rw [← isOther, ← isProcess]
    rfl
  have isSource : second.objects 1 = some
      (.constructed 1 { writable := true, memory := none }) := by
    rw [← isOther, ← isProcess]
    rfl
  have isThird : second.step sizeManager zeroEnvironment (.moveAssigns 0 1) =
      some _ := FileProcess.step_moveAssigns isTarget isSource (by decide)
  generalize isFinal : (second.putObject 0 _).putObject 1 _ = third at isThird
  have notSaved : third.timesSaved 0 = 0 := by
    rw [← isFinal, ← isOther, ← isProcess]
    rfl
  have below : 0 < third.opened.length := by
    rw [← isFinal, ← isOther, ← isProcess]
    decide
  have nobody : ∀ place, third.ownedAt place ≠ some 0 := by
    intro place
    rw [← isFinal, FileProcess.ownedAt_putObject,
      FileProcess.ownedAt_putObject]
    by_cases isOne : place = 1
    · rw [isOne, Function.update_self]
      decide
    · rw [Function.update_of_ne isOne]
      by_cases isZero : place = 0
      · rw [isZero, Function.update_self]
        decide
      · rw [Function.update_of_ne isZero]
        have isFree : second.objects place = none := by
          rw [← isOther, ← isProcess]
          exact (Function.update_of_ne isOne _ _).trans
            (Function.update_of_ne isZero _ _)
        rw [FileProcess.ownedAt_of_none isFree]
        exact (Option.some_ne_none 0).symm
  refine ⟨third, ?_, notSaved, nobody, ?_⟩
  · rw [Runs.run_cons, isFirst, Option.bind_some, Runs.run_cons, isSecond,
      Option.bind_some, Runs.run_cons, isThird]
    rfl
  · intro savesOnce
    rcases savesOnce.settled 0 below with ⟨isOwned, _⟩ | ⟨_, once⟩
    · have owned := isOwned.exists
      rcases owned with ⟨place, isOwned⟩
      exact nobody place isOwned
    · rw [notSaved] at once
      cases once

end Examples

end StateDatabase
