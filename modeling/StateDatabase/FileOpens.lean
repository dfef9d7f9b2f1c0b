import Mathlib
import StateDatabase.SavedFiles

/-!
# Opening a file

An existing file is checked first.  Then it is grown if the request is larger,
locked, marked as dirty and, in heap and locked mode, loaded.  What has been
done to the file before a step fails stays done, and when loading fails the file
is marked as clean whether it was clean or not.
-/

namespace StateDatabase

open Programs CrashPrograms Packing

/-! ## What is asked of a request and of the system -/

/-- `checkRequest` lets the request through. -/
structure OpenRequest.Accepted (request : OpenRequest) (found : Option Bytes) :
    Prop where
  size : request.sharedFileSize.toNat % dbSizeMultipleRequirement = 0
  pages : request.hugepagePaths = [] ∨ request.mode = .locked
  found : request.writable = true ∨ found ≠ none

/-- All checks before an existing file is touched succeed. -/
structure Admitted (environ : Environment) (system : System)
    (request : OpenRequest) (bytes : Bytes) : Prop where
  accepted : request.Accepted (some bytes)
  directories : system.createDirectories = none
  header : ValidHeader environ bytes
  clean : request.allowDirty = true ∨ dirtyByte bytes = 0

/-- The lock is taken. -/
def System.Locks (system : System) : Prop :=
  system.fileLock = none ∧ system.tryLock = true

/-- There is memory of this size. -/
def System.GrantsRegion (system : System) (request : OpenRequest)
    (size : Nat) : Prop :=
  if request.mode = .heap then
    system.anonymousMemory = none
  else
    match pageSizeToPaths system request.hugepagePaths with
    | .error _ => False
    | .ok pages =>
        match pages.find? fun page => page.1 = 0 ∨ size % page.1.toNat = 0 with
        | some (pageSize, path) =>
            pageSize ≠ 0 ∧ system.creat path = none ∧
              system.ftruncate = true ∧ system.mapHugepages = none
        | none => system.anonymousMemory = none

/-- A file of this size is loaded into other memory. -/
structure System.Loads (system : System) (request : OpenRequest) (size : Nat) :
    Prop where
  region : system.GrantsRegion request size
  blocks : dbSizeMultipleRequirement ∣ size
  uninterrupted : Uninterrupted system.signal size
  pinned : request.mode = .locked → system.mlock = true

/-! ## Rules -/

section Rules

variable {always : Option Bytes → Prop} {fail : Fault → Option Bytes → Prop}
  {state : Option Bytes} {bytes : Bytes} {environ : Environment}
  {system : System} {request : OpenRequest}

theorem passes_checkRequest {post : PUnit → Option Bytes → Prop}
    (rejected : ∀ text, ¬ request.Accepted state →
      fail (.runtimeError text) state)
    (accepted : request.Accepted state → post ⟨⟩ state) :
    Passes always (checkRequest request) state post fail := by
  apply passes_bind
  apply passes_throwIf
  · intro refused
    exact rejected _ fun holds => refused holds.size
  · intro isMultiple
    apply passes_bind
    apply passes_throwIf
    · rintro ⟨somePages, notLocked⟩
      apply rejected
      intro holds
      exact holds.pages.elim somePages notLocked
    · intro pagesAllowed
      apply passes_bind
      apply passes_current
      apply passes_throwIf
      · rintro ⟨readOnly, isAbsent⟩
        apply rejected
        intro holds
        rcases holds.found with writable | isPresent
        · rw [readOnly] at writable
          cases writable
        · exact isPresent isAbsent
      · intro isFound
        apply accepted
        refine ⟨not_not.mp isMultiple, ?_, ?_⟩
        · tauto
        · rcases Bool.eq_false_or_eq_true request.writable with writable | not
          · exact Or.inl writable
          · exact Or.inr fun isAbsent => isFound ⟨not, isAbsent⟩

theorem passes_checkHeader {post : PUnit → Option Bytes → Prop}
    (rejected : ∀ text, ¬ (ValidHeader environ bytes ∧
      (request.allowDirty = true ∨ dirtyByte bytes = 0)) →
        fail (.runtimeError text) state)
    (accepted : ValidHeader environ bytes →
      request.allowDirty = true ∨ dirtyByte bytes = 0 → post ⟨⟩ state) :
    Passes always (checkHeader environ request bytes) state post fail := by
  apply passes_bind
  apply passes_throwIf
  · intro short
    exact rejected _ fun holds => Nat.not_lt.mpr holds.1.long short
  · intro long
    apply passes_bind
    apply passes_throwIf
    · intro otherId
      exact rejected _ fun holds => otherId holds.1.id
    · intro isId
      apply passes_bind
      apply passes_throwIf
      · rintro ⟨notAllowed, isDirty⟩
        apply rejected
        rintro ⟨_, allowed | isClean⟩
        · rw [notAllowed] at allowed
          cases allowed
        · exact isDirty isClean
      · intro allowed
        apply passes_throwIf
        · intro otherEnviron
          exact rejected _ fun holds => otherEnviron holds.1.environ
        · intro isEnviron
          apply accepted
          · exact ⟨Nat.not_lt.mp long, not_not.mp isId, not_not.mp isEnviron⟩
          · rcases Bool.eq_false_or_eq_true request.allowDirty with dirty | not
            · exact Or.inl dirty
            · exact Or.inr (not_not.mp fun isDirty => allowed ⟨not, isDirty⟩)

/-- A file that has a header can be mapped unless the system refuses it. -/
theorem passes_mapRegion_long {post : Bytes → Option Bytes → Prop}
    (long : headerSize ≤ bytes.length)
    (refused : ∀ text, system.mapFile ≠ none →
      fail (.runtimeError text) (some bytes))
    (mapped : system.mapFile = none → post bytes (some bytes)) :
    Passes always (mapRegion system) (some bytes) post fail := by
  apply passes_mapRegion
  · rintro text (isRefused | isEmpty)
    · exact refused text isRefused
    · rw [isEmpty] at long
      cases long
  · intro isMapped _
    exact mapped isMapped

theorem passes_growDatabaseFile {boost : SegmentManager} {size : Nat}
    {post : PUnit → Option Bytes → Prop} (long : headerSize ≤ bytes.length)
    (notResized : ∀ text, bytes.length < size → system.resizeFile ≠ none →
      fail (.runtimeError text) (some bytes))
    (grows : bytes.length < size → system.resizeFile = none →
      always (some (resized size bytes)) ∧
      (∀ text, system.mapFile ≠ none →
        fail (.runtimeError text) (some (resized size bytes))) ∧
      (system.mapFile = none →
        Passes always
          (pokeAll headerSize (boost.grow (segment (resized size bytes))
            (size - bytes.length)))
          (some (resized size bytes)) post fail))
    (notMapped : ∀ text, ¬ bytes.length < size → system.mapFile ≠ none →
      fail (.runtimeError text) (some bytes))
    (same : ¬ bytes.length < size → system.mapFile = none →
      post ⟨⟩ (some bytes)) :
    Passes always (growDatabaseFile boost system size bytes) (some bytes) post
      fail := by
  by_cases larger : bytes.length < size
  · rw [growDatabaseFile, if_pos larger]
    apply passes_bind
    apply passes_answer
    · intro text isText
      apply notResized text larger
      rw [isText]
      exact Option.some_ne_none text
    · intro isResized
      obtain ⟨allowed, isRefused, isMapped⟩ := grows larger isResized
      apply passes_bind
      apply passes_change allowed
      apply passes_bind
      apply passes_mapRegion_long _ isRefused isMapped
      rw [resized, List.length_append, List.length_take, List.length_replicate]
      omega
  · rw [growDatabaseFile, if_neg larger]
    apply passes_bind
    apply passes_mapRegion_long long
    · intro text isRefused
      exact notMapped text larger isRefused
    · intro isMapped
      exact passes_pure (same larger isMapped)

theorem passes_markDatabaseFile {post : PUnit → Option Bytes → Prop}
    (readOnly : request.writable = false → post ⟨⟩ (some bytes))
    (refused : ∀ text, request.writable = true → ¬ system.Locks →
      fail (.runtimeError text) (some bytes))
    (marked : request.writable = true → system.Locks →
      always (some (bytes.set headerDirtyBitOffset 1)) ∧
        post ⟨⟩ (some (bytes.set headerDirtyBitOffset 1))) :
    Passes always (markDatabaseFile system request) (some bytes) post fail := by
  rcases Bool.eq_false_or_eq_true request.writable with writable | notWritable
  · rw [markDatabaseFile, if_pos writable]
    apply passes_bind
    apply passes_answer
    · intro text isText
      apply refused text writable
      rintro ⟨isGranted, _⟩
      rw [isText] at isGranted
      cases isGranted
    · intro isGranted
      apply passes_bind
      apply passes_throwIf
      · intro notLocked
        apply refused _ writable
        rintro ⟨_, locks⟩
        rw [notLocked] at locks
        cases locks
      · intro locks
        have isMarked := marked writable
          ⟨isGranted, (Bool.not_eq_false _).mp locks⟩
        exact passes_poke isMarked.1 isMarked.2
  · rw [markDatabaseFile, if_neg (by rw [notWritable]; exact Bool.false_ne_true)]
    exact passes_pure (readOnly notWritable)

theorem passes_getHugeRegion {size : Nat} {post : PUnit → Option Bytes → Prop}
    (notHeap : request.mode ≠ .heap)
    (refused : ∀ fault, ¬ system.GrantsRegion request size → fail fault state)
    (granted : system.GrantsRegion request size → post ⟨⟩ state) :
    Passes always (getHugeRegion system request.hugepagePaths size) state post
      fail := by
  rw [System.GrantsRegion, if_neg notHeap] at refused granted
  rw [getHugeRegion]
  generalize pageSizeToPaths system request.hugepagePaths = found at *
  cases found with
  | error fault => exact passes_throw (refused fault not_false)
  | ok pages =>
      dsimp only at refused granted ⊢
      generalize (pages.find? fun page =>
        decide (page.1 = 0 ∨ size % page.1.toNat = 0)) = page at *
      cases page with
      | none =>
          apply passes_answer
          · intro text isText
            apply refused
            rw [isText]
            exact Option.some_ne_none text
          · exact granted
      | some page =>
          obtain ⟨pageSize, path⟩ := page
          dsimp only at refused granted ⊢
          apply passes_bind
          apply passes_throwIf
          · intro isZero
            exact refused _ fun holds => holds.1 isZero
          · intro notZero
            apply passes_bind
            apply passes_answer
            · intro text isText
              apply refused
              rintro ⟨_, isCreated, _⟩
              rw [isCreated] at isText
              cases isText
            · intro isCreated
              apply passes_bind
              apply passes_throwIf
              · intro notGrown
                apply refused
                rintro ⟨_, _, isGrown, _⟩
                rw [notGrown] at isGrown
                cases isGrown
              · intro isGrown
                apply passes_answer
                · intro text isText
                  apply refused
                  rintro ⟨_, _, _, isMapped⟩
                  rw [isMapped] at isText
                  cases isText
                · intro isMapped
                  exact granted ⟨notZero, Option.map_eq_none_iff.mp isCreated,
                    (Bool.not_eq_false _).mp isGrown, isMapped⟩

theorem passes_newRegion {size : Nat} {post : PUnit → Option Bytes → Prop}
    (refused : ∀ fault, ¬ system.GrantsRegion request size → fail fault state)
    (granted : system.GrantsRegion request size → post ⟨⟩ state) :
    Passes always (newRegion system request size) state post fail := by
  by_cases heap : request.mode = .heap
  · rw [newRegion, if_pos heap]
    rw [System.GrantsRegion, if_pos heap] at refused granted
    apply passes_answer
    · intro text isText
      apply refused
      rw [isText]
      exact Option.some_ne_none text
    · exact granted
  · rw [newRegion, if_neg heap]
    exact passes_getHugeRegion heap refused granted

/-- Loading does not change the file. -/
theorem passes_loadRegion {post : Bytes → Option Bytes → Prop}
    (refused : ∀ fault, ¬ system.Loads request bytes.length →
      fail fault (some bytes))
    (loaded : system.Loads request bytes.length → post bytes (some bytes)) :
    Passes always (loadRegion system request) (some bytes) post fail := by
  apply passes_bind
  apply passes_fileBytes
  apply passes_bind
  apply passes_newRegion
  · intro fault notGranted
    exact refused fault fun loads => notGranted loads.region
  · intro isGranted
    cases isLoaded : loadDatabaseFile system.signal bytes with
    | error fault =>
        apply passes_throw
        apply refused
        intro loads
        have loads := loadDatabaseFile_ok_iff.mpr
          ⟨rfl, loads.blocks, loads.uninterrupted⟩
        rw [loads] at isLoaded
        cases isLoaded
    | ok memory =>
        obtain ⟨rfl, blocks, uninterrupted⟩ := loadDatabaseFile_ok_iff.mp isLoaded
        apply passes_bind
        apply passes_throwIf
        · rintro ⟨isLocked, notPinned⟩
          apply refused
          intro loads
          rw [loads.pinned isLocked] at notPinned
          cases notPinned
        · intro pinned
          apply passes_pure
          apply loaded
          refine ⟨isGranted, blocks, uninterrupted, fun isLocked => ?_⟩
          exact (Bool.not_eq_false _).mp fun notPinned =>
            pinned ⟨isLocked, notPinned⟩

theorem passes_useDatabaseFile {post : PinnableMappedFile → Option Bytes → Prop}
    (mapped : request.mode = .mapped →
      post { writable := request.writable, memory := none } (some bytes))
    (noSignals : ∀ text, request.mode ≠ .mapped → system.signalSet ≠ none →
      fail (.runtimeError text) (some bytes))
    (loaded : request.mode ≠ .mapped → system.Loads request bytes.length →
      post { writable := request.writable, memory := some bytes } (some bytes))
    (notLoaded : ∀ fault, request.mode ≠ .mapped → system.signalSet = none →
      ¬ system.Loads request bytes.length → fault.isException = true →
        if request.writable then
          always (some (bytes.set headerDirtyBitOffset 0)) ∧
            fail fault (some (bytes.set headerDirtyBitOffset 0))
        else fail fault (some bytes))
    (undefined : ∀ fault, request.mode ≠ .mapped →
      ¬ system.Loads request bytes.length → fault.isException = false →
        fail fault (some bytes)) :
    Passes always (useDatabaseFile system request) (some bytes) post fail := by
  by_cases isMapped : request.mode = .mapped
  · rw [useDatabaseFile, if_pos isMapped]
    exact passes_pure (mapped isMapped)
  · rw [useDatabaseFile, if_neg isMapped]
    apply passes_bind
    apply passes_answer
    · intro text isText
      apply noSignals text isMapped
      rw [isText]
      exact Option.some_ne_none text
    · intro signals
      apply passes_bind
      apply passes_rethrowing
      apply passes_loadRegion
      · intro fault notLoads
        refine ⟨fun isException => ?_, undefined fault isMapped notLoads⟩
        have handled := notLoaded fault isMapped signals notLoads isException
        split at handled
        · rename_i writable
          rw [if_pos writable]
          exact passes_poke handled.1 handled.2
        · rename_i notWritable
          rw [if_neg notWritable]
          exact passes_pure handled
      · intro loads
        exact passes_pure (loaded isMapped loads)

/-- A check fails, or the file is used after it was grown and marked. -/
theorem passes_openExisting {boost : SegmentManager}
    {post : PinnableMappedFile → Option Bytes → Prop}
    (rejected : ∀ text, ¬ Admitted environ system request bytes →
      fail (.runtimeError text) (some bytes))
    (readOnly : Admitted environ system request bytes →
      request.writable = false →
      (∀ text, fail (.runtimeError text) (some bytes)) ∧
      Passes always (useDatabaseFile system request) (some bytes) post fail)
    (writable : Admitted environ system request bytes →
      request.writable = true →
      Passes always
        (growDatabaseFile boost system request.sharedFileSize.toNat bytes)
        (some bytes)
        (fun _ grown => Passes always (markDatabaseFile system request) grown
          (fun _ marked =>
            Passes always (useDatabaseFile system request) marked post fail)
          fail)
        fail) :
    Passes always (openPinnableMappedFile boost environ system request)
      (some bytes) post fail := by
  apply passes_bind
  apply passes_checkRequest
  · intro text notAccepted
    exact rejected text fun admitted => notAccepted admitted.accepted
  · intro accepted
    apply passes_bind
    apply passes_answer
    · intro text isText
      apply rejected
      intro admitted
      rw [admitted.directories] at isText
      cases isText
    · intro directories
      apply passes_bind
      apply passes_current
      apply passes_bind
      apply passes_bind
      apply passes_checkHeader
      · intro text notValid
        exact rejected text fun admitted =>
          notValid ⟨admitted.header, admitted.clean⟩
      · intro header clean
        have admitted : Admitted environ system request bytes :=
          ⟨accepted, directories, header, clean⟩
        rcases Bool.eq_false_or_eq_true request.writable with isWritable | not
        · rw [if_pos isWritable]
          apply (writable admitted isWritable).imp _ fun _ _ failed => failed
          intro _ grown rest
          exact passes_bind rest
        · rw [if_neg (by rw [not]; exact Bool.false_ne_true)]
          obtain ⟨refused, used⟩ := readOnly admitted not
          apply passes_bind
          apply passes_mapRegion_long header.long
          · intro text _
            exact refused text
          · intro _
            apply passes_pure
            apply passes_bind
            apply passes_markDatabaseFile
            · intro _
              exact used
            · intro _ isWritable
              rw [not] at isWritable
              cases isWritable
            · intro isWritable
              rw [not] at isWritable
              cases isWritable

theorem resized_nil (size : Nat) : resized size [] = List.replicate size 0 := by
  rw [resized, List.take_nil, List.nil_append, List.length_nil, Nat.sub_zero]

theorem passes_createDatabaseFile {boost : SegmentManager} {size : Nat}
    {post : PUnit → Option Bytes → Prop}
    (empty : always (some []))
    (notResized : ∀ text, system.resizeFile ≠ none →
      fail (.runtimeError text) (some []))
    (zeros : system.resizeFile = none →
      always (some (resized size [])) ∧
      (∀ text, system.mapFile ≠ none ∨ size = 0 →
        fail (.runtimeError text) (some (resized size []))) ∧
      (system.mapFile = none → size ≠ 0 →
        Passes always (pokeAll headerSize (boost.construct (size - headerSize)))
          (some (resized size []))
          (fun _ constructed =>
            Passes always (copyTo 0 (dbHeader environ)) constructed post fail)
          fail)) :
    Passes always (createDatabaseFile boost environ system size) none post
      fail := by
  apply passes_bind
  apply passes_change empty
  apply passes_bind
  apply passes_answer
  · intro text isText
    apply notResized text
    rw [isText]
    exact Option.some_ne_none text
  · intro isResized
    obtain ⟨allowed, notMapped, isMapped⟩ := zeros isResized
    apply passes_bind
    apply passes_change allowed
    apply passes_bind
    apply passes_mapRegion
    · rintro text (isRefused | isEmpty)
      · exact notMapped text (Or.inl isRefused)
      · rw [resized_nil, List.length_replicate] at isEmpty
        exact notMapped text (Or.inr isEmpty)
    · intro granted notEmpty
      rw [resized_nil, List.length_replicate] at notEmpty
      exact passes_bind (isMapped granted notEmpty)

/-- There is no file: the request is rejected, or the file is created, marked
and used. -/
theorem passes_openAbsent {boost : SegmentManager}
    {post : PinnableMappedFile → Option Bytes → Prop}
    (rejected : ∀ text,
      ¬ (request.Accepted none ∧ system.createDirectories = none) →
        fail (.runtimeError text) none)
    (created : request.Accepted none → system.createDirectories = none →
      Passes always
        (createDatabaseFile boost environ system request.sharedFileSize.toNat)
        none
        (fun _ grown => Passes always (markDatabaseFile system request) grown
          (fun _ marked =>
            Passes always (useDatabaseFile system request) marked post fail)
          fail)
        fail) :
    Passes always (openPinnableMappedFile boost environ system request) none
      post fail := by
  apply passes_bind
  apply passes_checkRequest
  · intro text notAccepted
    exact rejected text fun both => notAccepted both.1
  · intro accepted
    apply passes_bind
    apply passes_answer
    · intro text isText
      apply rejected
      rintro ⟨_, directories⟩
      rw [directories] at isText
      cases isText
    · intro directories
      apply passes_bind
      apply passes_current
      apply passes_bind
      apply (created accepted directories).imp _ fun _ _ failed => failed
      intro _ grown rest
      exact passes_bind rest

end Rules

/-! ## A failed open -/

/-- The mark that the constructor leaves behind when it fails behind the lock:
its handler marks the file as clean, but is not there yet when the signals
cannot be set up. -/
def System.markLeft (system : System) : UInt8 :=
  if system.signalSet = none then 0 else 1

/-- The file was grown, or it was locked and had another mark than the one that
is left behind. -/
structure Harmed (environ : Environment) (system : System)
    (request : OpenRequest) (bytes : Bytes) : Prop where
  admitted : Admitted environ system request bytes
  writable : request.writable = true
  touched :
    if bytes.length < request.sharedFileSize.toNat then
      system.resizeFile = none
    else system.mapFile = none ∧ system.Locks ∧
      dirtyByte bytes ≠ system.markLeft

section FailedOpen

variable {boost : SegmentManager} {environ : Environment} {system : System}
  {request : OpenRequest} {bytes : Bytes}

/-- What an exception leaves behind. -/
def LeftBehind (environ : Environment) (system : System)
    (request : OpenRequest) (bytes : Bytes) (fault : Fault)
    (final : Option Bytes) : Prop :=
  fault.isException = true →
    (final = some bytes ↔ ¬ Harmed environ system request bytes)

theorem leftBehind_unharmed {fault : Fault}
    (unharmed : ¬ Harmed environ system request bytes) :
    LeftBehind environ system request bytes fault (some bytes) := by
  intro _
  exact iff_of_true rfl unharmed

/-- A file that has another size is not the old one. -/
theorem leftBehind_grown {fault : Fault} {grown : Bytes}
    (admitted : Admitted environ system request bytes)
    (writable : request.writable = true)
    (larger : bytes.length < request.sharedFileSize.toNat)
    (isResized : system.resizeFile = none)
    (isGrown : grown.length = request.sharedFileSize.toNat) :
    LeftBehind environ system request bytes fault (some grown) := by
  intro _
  apply iff_of_false
  · intro same
    rw [Option.some.inj same] at isGrown
    omega
  · intro unharmed
    exact unharmed ⟨admitted, writable, by rw [if_pos larger]; exact isResized⟩

theorem set_eq_self_iff {bytes : Bytes} {offset : Nat} {value : UInt8}
    (inside : offset < bytes.length) :
    bytes.set offset value = bytes ↔ bytes.getD offset 0 = value := by
  have atOffset : bytes.getD offset 0 = bytes[offset] := by
    rw [List.getD_eq_getElem?_getD, List.getElem?_eq_getElem inside]
    rfl
  rw [atOffset]
  constructor
  · intro same
    have present : (bytes.set offset value)[offset]? = bytes[offset]? := by
      rw [same]
    rw [List.getElem?_set_self inside, List.getElem?_eq_getElem inside]
      at present
    exact (Option.some.inj present).symm
  · rintro rfl
    exact List.set_getElem_self inside

theorem resized_length {size : Nat} (bytes : Bytes)
    (larger : bytes.length < size) : (resized size bytes).length = size := by
  rw [resized, List.length_append, List.length_take, List.length_replicate]
  omega

/-- Nothing that is done after the growth gives the old size back. -/
theorem leaves_grown {grown : Bytes}
    (admitted : Admitted environ system request bytes)
    (writable : request.writable = true)
    (larger : bytes.length < request.sharedFileSize.toNat)
    (isResized : system.resizeFile = none)
    (isGrown : grown.length = request.sharedFileSize.toNat) :
    Passes (fun _ => True) (markDatabaseFile system request) (some grown)
      (fun _ marked => Passes (fun _ => True)
        (useDatabaseFile system request) marked (fun _ _ => True)
        (LeftBehind environ system request bytes))
      (LeftBehind environ system request bytes) := by
  have left : ∀ {fault : Fault} {grown : Bytes},
      grown.length = request.sharedFileSize.toNat →
        LeftBehind environ system request bytes fault (some grown) :=
    leftBehind_grown admitted writable larger isResized
  apply passes_markDatabaseFile
  · intro readOnly
    rw [writable] at readOnly
    cases readOnly
  · intro _ _ _
    exact left isGrown
  · intro _ _
    refine ⟨trivial, ?_⟩
    apply passes_useDatabaseFile
    · intro _
      trivial
    · intro text _ _
      apply left
      rw [List.length_set, isGrown]
    · intro _ _
      trivial
    · intro fault _ _ _ _
      rw [if_pos writable]
      refine ⟨trivial, left ?_⟩
      rw [List.length_set, List.length_set, isGrown]
    · intro fault _ _ _
      apply left
      rw [List.length_set, isGrown]

theorem not_harmed_of_mark
    (notLarger : ¬ bytes.length < request.sharedFileSize.toNat)
    (isMark : dirtyByte bytes = system.markLeft) :
    ¬ Harmed environ system request bytes := by
  rintro ⟨_, _, touched⟩
  rw [if_neg notLarger] at touched
  exact touched.2.2 isMark

/-- A file that was locked has the mark that is left behind. -/
theorem leftBehind_marked {fault : Fault} {mark : UInt8}
    (admitted : Admitted environ system request bytes)
    (writable : request.writable = true)
    (notLarger : ¬ bytes.length < request.sharedFileSize.toNat)
    (isMapped : system.mapFile = none) (isLocked : system.Locks)
    (isMark : system.markLeft = mark) :
    LeftBehind environ system request bytes fault
      (some (bytes.set headerDirtyBitOffset mark)) := by
  intro _
  have inside : headerDirtyBitOffset < bytes.length := by
    have long := admitted.header.long
    rw [headerSize] at long
    rw [headerDirtyBitOffset]
    omega
  rw [Option.some.injEq, set_eq_self_iff inside, ← isMark]
  constructor
  · exact not_harmed_of_mark notLarger
  · intro unharmed
    by_contra otherMark
    apply unharmed
    refine ⟨admitted, writable, ?_⟩
    rw [if_neg notLarger]
    exact ⟨isMapped, isLocked, otherMark⟩

/-- Without growth only the mark can be lost. -/
theorem leaves_same (admitted : Admitted environ system request bytes)
    (writable : request.writable = true)
    (notLarger : ¬ bytes.length < request.sharedFileSize.toNat)
    (isMapped : system.mapFile = none) :
    Passes (fun _ => True) (markDatabaseFile system request) (some bytes)
      (fun _ marked => Passes (fun _ => True)
        (useDatabaseFile system request) marked (fun _ _ => True)
        (LeftBehind environ system request bytes))
      (LeftBehind environ system request bytes) := by
  apply passes_markDatabaseFile
  · intro readOnly
    rw [writable] at readOnly
    cases readOnly
  · intro text _ notLocked
    apply leftBehind_unharmed
    rintro ⟨_, _, touched⟩
    rw [if_neg notLarger] at touched
    exact notLocked touched.2.1
  · intro _ isLocked
    refine ⟨trivial, ?_⟩
    apply passes_useDatabaseFile
    · intro _
      trivial
    · intro text _ noSignals
      exact leftBehind_marked admitted writable notLarger isMapped isLocked
        (if_neg noSignals)
    · intro _ _
      trivial
    · intro fault _ signals _ _
      rw [if_pos writable, List.set_set]
      exact ⟨trivial, leftBehind_marked admitted writable notLarger isMapped
        isLocked (if_pos signals)⟩
    · intro fault _ _ notException isException
      rw [notException] at isException
      cases isException

theorem passes_open_leftBehind :
    Passes (fun _ => True) (openPinnableMappedFile boost environ system request)
      (some bytes) (fun _ _ => True)
      (LeftBehind environ system request bytes) := by
  apply passes_openExisting
  · intro text notAdmitted
    exact leftBehind_unharmed fun harmed => notAdmitted harmed.admitted
  · intro _ readOnly
    have unharmed : ¬ Harmed environ system request bytes := by
      intro harmed
      rw [harmed.writable] at readOnly
      cases readOnly
    refine ⟨fun text => leftBehind_unharmed unharmed, ?_⟩
    apply passes_useDatabaseFile
    · intro _
      trivial
    · intro text _ _
      exact leftBehind_unharmed unharmed
    · intro _ _
      trivial
    · intro fault _ _ _ _
      rw [if_neg (by rw [readOnly]; exact Bool.false_ne_true)]
      exact leftBehind_unharmed unharmed
    · intro fault _ _ _
      exact leftBehind_unharmed unharmed
  · intro admitted writable
    apply passes_growDatabaseFile admitted.header.long
    · intro text larger notResized
      apply leftBehind_unharmed
      rintro ⟨_, _, touched⟩
      rw [if_pos larger] at touched
      exact notResized touched
    · intro larger isResized
      have length := resized_length bytes larger
      refine ⟨trivial, fun text _ => ?_, fun _ => ?_⟩
      · exact leftBehind_grown admitted writable larger isResized length
      · apply passes_pokeAll
          (fun grown => grown.length = request.sharedFileSize.toNat)
        · intro _ _
          trivial
        · intro write _ grown isGrown
          rw [List.length_set, isGrown]
        · intro grown isGrown _
          exact leaves_grown admitted writable larger isResized isGrown
        · exact length
    · intro text notLarger notMapped
      apply leftBehind_unharmed
      rintro ⟨_, _, touched⟩
      rw [if_neg notLarger] at touched
      exact notMapped touched.1
    · intro notLarger isMapped
      exact leaves_same admitted writable notLarger isMapped

/-- After an exception of the constructor the file is the one before, unless it
was admitted for writing and either grown, or locked with another mark than the
one that is left behind. -/
theorem failed_open_keeps_file_iff (boost : SegmentManager)
    (environ : Environment) (system : System) (request : OpenRequest)
    (bytes : Bytes) (fault : Fault) (final : Traced (Option Bytes))
    (failed : openPinnableMappedFile boost environ system request
      ⟨some bytes, []⟩ = .error fault final)
    (isException : fault.isException = true) :
    final.current = some bytes ↔ ¬ Harmed environ system request bytes :=
  (passes_open_leftBehind.ends trivial).of_error failed |>.2 isException

/-- An environment of zeros. -/
def zeroEnvironment : Environment :=
  ⟨List.replicate 775 0, List.length_replicate⟩

/-- A file of the smallest size with this mark. -/
def smallFile (dirty : UInt8) : Bytes :=
  (dbHeader zeroEnvironment).set headerDirtyBitOffset dirty ++
    List.replicate 240 0

/-- A system that has no hugepages and refuses nothing else. -/
def grantingSystem : System where
  createDirectories := none
  resizeFile := none
  mapFile := none
  fileLock := none
  tryLock := true
  signalSet := none
  anonymousMemory := none
  statfs := fun _ => none
  creat := fun _ => none
  ftruncate := true
  mapHugepages := none
  signal := none
  mlock := true

/-- A system that has no memory left for other modes than mapped. -/
def crowdedSystem : System :=
  { grantingSystem with
    anonymousMemory := some "boost::interprocess_exception::library_error" }

/-- A request to use the database in this mode, dirty or not. -/
def requestIn (mode : MapMode) (size : UInt64) : OpenRequest where
  dataFilePath := "/db/shared_memory.bin"
  databaseName := "db"
  writable := true
  sharedFileSize := size
  allowDirty := true
  mode := mode
  hugepagePaths := []

/-- A segment manager that writes the size of the segment only. -/
def sizeManager : SegmentManager where
  construct := fun size => (littleEndian 8 size).mapIdx Prod.mk
  grow := fun contents _ => (littleEndian 8 contents.length).mapIdx Prod.mk
  sizeOffset := 0

/-- A clean file stays as it is when there is no memory to load it. -/
theorem failed_open_keeps_clean_file :
    ∃ fault final,
      openPinnableMappedFile sizeManager zeroEnvironment crowdedSystem
          (requestIn .heap 0) ⟨some (smallFile 0), []⟩ = .error fault final ∧
        fault.isException = true ∧ final.current = some (smallFile 0) := by
  have fails : (match openPinnableMappedFile sizeManager zeroEnvironment
      crowdedSystem (requestIn .heap 0) ⟨some (smallFile 0), []⟩ with
      | .ok _ _ => false
      | .error fault _ => fault.isException) = true := by
    decide +kernel
  cases ran : openPinnableMappedFile sizeManager zeroEnvironment crowdedSystem
      (requestIn .heap 0) ⟨some (smallFile 0), []⟩ with
  | ok file final =>
      rw [ran] at fails
      cases fails
  | error fault final =>
      rw [ran] at fails
      refine ⟨fault, final, rfl, fails, ?_⟩
      apply (failed_open_keeps_file_iff _ _ _ _ _ fault final ran fails).mpr
      exact not_harmed_of_mark (Nat.not_lt_zero _) (by decide +kernel)

/-- A dirty file is marked as clean when there is no memory to load it. -/
theorem failed_open_marks_dirty_file_clean :
    ∃ fault final,
      openPinnableMappedFile sizeManager zeroEnvironment crowdedSystem
          (requestIn .heap 0) ⟨some (smallFile 1), []⟩ = .error fault final ∧
        fault.isException = true ∧ dirtyByte (smallFile 1) = 1 ∧
        final.current = some (smallFile 0) ∧
        final.current ≠ some (smallFile 1) := by
  have fails : (match openPinnableMappedFile sizeManager zeroEnvironment
      crowdedSystem (requestIn .heap 0) ⟨some (smallFile 1), []⟩ with
      | .ok _ _ => false
      | .error fault final => fault.isException &&
          (final.current == some (smallFile 0) &&
            final.current != some (smallFile 1))) = true := by
    decide +kernel
  cases ran : openPinnableMappedFile sizeManager zeroEnvironment crowdedSystem
      (requestIn .heap 0) ⟨some (smallFile 1), []⟩ with
  | ok file final =>
      rw [ran] at fails
      cases fails
  | error fault final =>
      rw [ran] at fails
      simp only [Bool.and_eq_true, beq_iff_eq, bne_iff_ne] at fails
      exact ⟨fault, final, rfl, fails.1, by decide +kernel, fails.2⟩

end FailedOpen

end StateDatabase
