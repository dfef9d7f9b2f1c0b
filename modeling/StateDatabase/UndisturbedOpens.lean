import Mathlib
import StateDatabase.InterleavedOpens

/-!
# Requests that do not disturb each other

When the requests do not disturb each other, a process that has to change the
file without the lock is alone in having passed the header check: every other
one either fails the check as long as the file is dirty, or asks for no more
than there is.
-/

namespace StateDatabase

open Programs CrashPrograms

/-! ## A file that is there -/

section Header

variable {environ : Environment} {bytes : Bytes}

/-- Bytes behind the header do not matter to it. -/
theorem ValidHeader.append (header : ValidHeader environ bytes)
    (added : Bytes) : ValidHeader environ (bytes ++ added) where
  long := by
    rw [List.length_append]
    exact Nat.le_add_right_of_le header.long
  id := by
    have long := header.long
    rw [headerSize] at long
    rw [List.take_append_of_le_length (by omega)]
    exact header.id
  environ := by
    have long := header.long
    rw [headerSize] at long
    rw [List.drop_append_of_le_length (by omega),
      List.take_append_of_le_length (by rw [List.length_drop]; omega)]
    exact header.environ

theorem ValidHeader.set_behind (header : ValidHeader environ bytes)
    {offset : Nat} (isBehind : headerSize ≤ offset) (value : UInt8) :
    ValidHeader environ (bytes.set offset value) where
  long := by
    rw [List.length_set]
    exact header.long
  id := by
    rw [headerSize] at isBehind
    rw [List.take_set_of_le (by omega)]
    exact header.id
  environ := by
    rw [headerSize] at isBehind
    rw [List.drop_set, if_neg (by omega), List.take_set_of_le (by omega)]
    exact header.environ

end Header

namespace OpenStage

/-- The request was not yet compared with the file, or the file is changed. -/
def NeedsGrowth (stage : OpenStage) (request : OpenRequest) (length : Nat) :
    Prop :=
  stage.grows = true ∨
    (stage = looksAgain ∨ stage = measures) ∧
      length < request.sharedFileSize.toNat

/-- What holds of a process at this step, for a file that had the bytes `start`
and has this length now.  `cleaned` says that a process has marked it as clean
because it could not load it. -/
structure Sound (environ : Environment) (start : Bytes) (request : OpenRequest)
    (length : Nat) (cleaned : Prop) (stage : OpenStage) : Prop where
  acceptable : stage ≠ starts → stage ≠ failed → request.Acceptable
  notCreates : stage.creates = false
  passed : stage.passed = true → request.Admissible environ start ∨
    request.sharedFileSize.toNat ≤ length ∧ cleaned
  grows : stage.grows = true → request.Admissible environ start ∧
    start.length < request.sharedFileSize.toNat
  resizes : ∀ grow, stage = resizes grow →
    length < request.sharedFileSize.toNat
  fits : stage.fits = true → request.sharedFileSize.toNat ≤ length
  writes : ∀ size pending, stage = writes size pending →
    ∀ write ∈ pending, headerSize ≤ write.1
  unmarks : ∀ size, stage = unmarks size → request.mode ≠ .mapped

end OpenStage

namespace SharedFile

variable {ι : Type} {boost : SegmentManager} {environ : Environment}
  {requests : ι → OpenRequest} {start bytes bytes' : Bytes}
  {state : SharedFile ι} {process : ι} {stage : OpenStage}

/-- A process has marked the file as clean because it could not load it, and it
has left or is about to. -/
def Cleaned (environ : Environment) (requests : ι → OpenRequest)
    (start : Bytes) (stages : ι → OpenStage) (length : Nat) : Prop :=
  ∃ process, (requests process).Admissible environ start ∧
    (requests process).mode ≠ .mapped ∧
    (stages process = .unlocks ∨ stages process = .failed) ∧
    (requests process).sharedFileSize.toNat ≤ length

/-- What every state satisfies when the file had the bytes `start` and has the
bytes `bytes` now.  A process that has to change the file without the lock is
alone in having passed the header check. -/
structure PresentSound (environ : Environment) (requests : ι → OpenRequest)
    (start : Bytes) (state : SharedFile ι) (bytes : Bytes) : Prop where
  isFile : state.file = some bytes
  header : ValidHeader environ bytes
  notSmaller : start.length ≤ bytes.length
  clean : dirtyByte bytes = 0 → dirtyByte start = 0 ∨
    Cleaned environ requests start state.stages bytes.length
  stage : ∀ process, (state.stages process).Sound environ start
    (requests process) bytes.length
    (Cleaned environ requests start state.stages bytes.length)
  alone : ∀ process other, other ≠ process →
    (state.stages process).NeedsGrowth (requests process) bytes.length →
      (state.stages other).passed = false

/-- A process that has to change the file passes the checks of the file as it
was at the start, and asks for more. -/
theorem PresentSound.larger
    (sound : PresentSound environ requests start state bytes)
    (needs : (state.stages process).NeedsGrowth (requests process)
      bytes.length) :
    (requests process).Admissible environ start ∧
      start.length < (requests process).sharedFileSize.toNat := by
  have stage := sound.stage process
  rcases needs with grows | ⟨isEarly, larger⟩
  · exact stage.grows grows
  · have isPassed : (state.stages process).passed = true := by
      rcases isEarly with isStage | isStage <;>
      · rw [isStage]
        rfl
    rcases stage.passed isPassed with admissible | ⟨notLarger, _⟩
    · exact ⟨admissible, Nat.lt_of_le_of_lt sound.notSmaller larger⟩
    · exact absurd notLarger (Nat.not_le.mpr larger)

theorem not_left_of_needsGrowth {request : OpenRequest} {length : Nat}
    (needs : stage.NeedsGrowth request length) :
    ¬ (stage = .unlocks ∨ stage = .failed) := by
  intro left
  rcases left with isLeft | isLeft <;>
  · rw [isLeft] at needs
    rcases needs with grows | ⟨isEarly, _⟩
    · cases grows
    · rcases isEarly with isStage | isStage <;> cases isStage

/-- When one process has passed the checks, no other one asks for more than
there was at the start. -/
theorem not_larger_of_passes
    (nonInterfering : NonInterfering environ requests (some start)) {other : ι}
    {length : Nat} (isOther : other ≠ process)
    (admissible : (requests process).Admissible environ start)
    (notLeft : ¬ (state.stages process = .unlocks ∨
      state.stages process = .failed))
    (passes : (requests other).Admissible environ start ∨
      Cleaned environ requests start state.stages length) :
    (requests process).sharedFileSize.toNat ≤ start.length := by
  rcases passes with otherAdmissible | ⟨third, thirdAdmissible, _, left, _⟩
  · exact nonInterfering.admitted start rfl process other isOther.symm
      admissible
      otherAdmissible
  · apply nonInterfering.admitted start rfl process third _ admissible
      thirdAdmissible
    intro isSame
    rw [← isSame] at left
    exact notLeft left

end SharedFile

namespace OpenStage

variable {environ : Environment} {start : Bytes} {request : OpenRequest}
  {length length' : Nat} {cleaned cleaned' : Prop} {stage : OpenStage}

/-- The file may grow, unless the process is about to set its size. -/
theorem Sound.mono
    (sound : stage.Sound environ start request length cleaned)
    (grown : length ≤ length') (implies : cleaned → cleaned')
    (resizes : ∀ grow, stage = .resizes grow → length' = length) :
    stage.Sound environ start request length' cleaned' where
  acceptable := sound.acceptable
  notCreates := sound.notCreates
  passed := by
    intro passed
    rcases sound.passed passed with admissible | ⟨notLarger, isCleaned⟩
    · exact Or.inl admissible
    · exact Or.inr ⟨notLarger.trans grown, implies isCleaned⟩
  grows := sound.grows
  resizes := by
    intro grow isResize
    rw [resizes grow isResize]
    exact sound.resizes grow isResize
  fits := by
    intro fits
    exact (sound.fits fits).trans grown
  writes := sound.writes
  unmarks := sound.unmarks

theorem NeedsGrowth.anti (needs : stage.NeedsGrowth request length')
    (grown : length ≤ length') : stage.NeedsGrowth request length := by
  rcases needs with grows | ⟨isEarly, larger⟩
  · exact Or.inl grows
  · exact Or.inr ⟨isEarly, Nat.lt_of_le_of_lt grown larger⟩

/-- A step that has not passed the header check. -/
theorem Sound.early (acceptable : stage ≠ starts → stage ≠ failed →
      request.Acceptable)
    (isEarly : stage = starts ∨ stage = looks ∨ stage = reads ∨
      stage = failed) :
    stage.Sound environ start request length cleaned := by
  rcases isEarly with isStage | isStage | isStage | isStage <;>
  · rw [isStage] at acceptable ⊢
    exact
      { acceptable := acceptable
        notCreates := rfl
        passed := by
          intro passed
          cases passed
        grows := by
          intro grows
          cases grows
        resizes := by
          intro grow isResize
          cases isResize
        fits := by
          intro fits
          cases fits
        writes := by
          intro size pending isWrite
          cases isWrite
        unmarks := by
          intro size isUnmark
          cases isUnmark }

/-- A process that has passed the header check and has not yet compared its
request with the file. -/
theorem Sound.undecided (acceptable : request.Acceptable)
    (passed : request.Admissible environ start ∨
      request.sharedFileSize.toNat ≤ length ∧ cleaned)
    (isStage : stage = looksAgain ∨ stage = measures) :
    stage.Sound environ start request length cleaned := by
  rcases isStage with isStage | isStage <;>
  · rw [isStage]
    exact
      { acceptable := fun _ _ => acceptable
        notCreates := rfl
        passed := fun _ => passed
        grows := by
          intro grows
          cases grows
        resizes := by
          intro grow isResize
          cases isResize
        fits := by
          intro fits
          cases fits
        writes := by
          intro size pending isWrite
          cases isWrite
        unmarks := by
          intro size isUnmark
          cases isUnmark }

end OpenStage

namespace SharedFile

variable {ι : Type} [DecidableEq ι] {boost : SegmentManager}
  {environ : Environment} {requests : ι → OpenRequest}
  {start bytes bytes' : Bytes} {state next : SharedFile ι} {process : ι}
  {system : System} {stage : OpenStage}

/-- A process that has left stays where it is. -/
theorem Cleaned.advances {free : Bool} {file content : Option Bytes}
    {length length' : Nat}
    (cleaned : Cleaned environ requests start state.stages length)
    (advances : OpenStage.Advances boost environ (requests process) free file
      (state.stages process) stage content)
    (isNext : next.stages = Function.update state.stages process stage)
    (grown : length ≤ length') :
    Cleaned environ requests start next.stages length' := by
  rcases cleaned with ⟨other, admissible, notMapped, left, notLarger⟩
  refine ⟨other, admissible, notMapped, ?_, notLarger.trans grown⟩
  rw [isNext]
  by_cases isOther : other = process
  · rw [isOther] at left ⊢
    rw [Function.update_self]
    rcases left with isLeft | isLeft
    · rw [isLeft] at advances
      cases advances
      exact Or.inr rfl
    · rw [isLeft] at advances
      cases advances
      exact Or.inr rfl
  · rw [Function.update_of_ne isOther]
    exact left

/-- A step keeps the invariant when the process may be where it goes. -/
theorem PresentSound.moves
    (sound : PresentSound environ requests start state bytes)
    {free : Bool} {file : Option Bytes}
    (advances : OpenStage.Advances boost environ (requests process) free file
      (state.stages process) stage (some bytes'))
    (isNext : next.stages = Function.update state.stages process stage)
    (isFile : next.file = some bytes')
    (header : ValidHeader environ bytes')
    (grown : bytes.length ≤ bytes'.length)
    (sameLength : bytes'.length = bytes.length ∨
      (state.stages process).grows = true)
    (clean : dirtyByte bytes' = 0 → dirtyByte bytes = 0 ∨
      Cleaned environ requests start next.stages bytes'.length)
    (goesTo : stage.Sound environ start (requests process) bytes'.length
      (Cleaned environ requests start next.stages bytes'.length))
    (needs : stage.NeedsGrowth (requests process) bytes'.length →
      ∀ other, other ≠ process → (state.stages other).passed = false)
    (passed : stage.passed = true → ∀ other, other ≠ process →
      ¬ (state.stages other).NeedsGrowth (requests other) bytes.length) :
    PresentSound environ requests start next bytes' where
  isFile := isFile
  header := header
  notSmaller := sound.notSmaller.trans grown
  clean := by
    intro isClean
    rcases clean isClean with wasClean | isCleaned
    · apply (sound.clean wasClean).imp_right
      intro cleaned
      exact cleaned.advances advances isNext grown
    · exact Or.inr isCleaned
  stage := by
    intro other
    by_cases isOther : other = process
    · rw [isOther, isNext, Function.update_self]
      rw [isNext] at goesTo
      exact goesTo
    · rw [isNext, Function.update_of_ne isOther, ← isNext]
      apply (sound.stage other).mono grown
      · intro cleaned
        exact cleaned.advances advances isNext grown
      · intro grow isResize
        rcases sameLength with same | grows
        · exact same
        · have isPassed := sound.alone process other isOther (Or.inl grows)
          rw [isResize] at isPassed
          cases isPassed
  alone := by
    intro first second isOther needsGrowth
    rw [isNext] at needsGrowth ⊢
    by_cases isFirst : first = process
    · rw [isFirst] at needsGrowth isOther
      rw [Function.update_self] at needsGrowth
      rw [Function.update_of_ne isOther]
      exact needs needsGrowth second isOther
    · rw [Function.update_of_ne isFirst] at needsGrowth
      have neededGrowth := needsGrowth.anti grown
      by_cases isSecond : second = process
      · rw [isSecond, Function.update_self]
        by_contra isPassed
        rw [Bool.not_eq_false] at isPassed
        exact passed isPassed first isFirst neededGrowth
      · rw [Function.update_of_ne isSecond]
        exact sound.alone first second isOther neededGrowth

end SharedFile

namespace OpenStage

variable {environ : Environment} {start : Bytes} {request : OpenRequest}
  {length length' : Nat} {cleaned cleaned' : Prop} {stage stage' : OpenStage}

theorem ne_of_passed (passed : stage.passed = true) :
    stage ≠ starts ∧ stage ≠ failed := by
  constructor
  · intro isStage
    rw [isStage] at passed
    cases passed
  · intro isStage
    rw [isStage] at passed
    cases passed

/-- A process that has compared its request with the file goes on. -/
theorem Sound.goesOn
    (sound : stage.Sound environ start request length cleaned)
    (grown : length ≤ length') (implies : cleaned → cleaned')
    (wasPassed : stage.passed = true) (fits : stage'.fits = true)
    (notLarger : request.sharedFileSize.toNat ≤ length')
    (grows : stage'.grows = true → stage.grows = true)
    (writes : ∀ size pending, stage' = .writes size pending →
      ∀ write ∈ pending, headerSize ≤ write.1)
    (unmarks : ∀ size, stage' = .unmarks size → request.mode ≠ .mapped) :
    stage'.Sound environ start request length' cleaned' where
  acceptable := by
    intro _ _
    have isOther := ne_of_passed wasPassed
    exact sound.acceptable isOther.1 isOther.2
  notCreates := by
    cases stage' <;> first | rfl | cases fits
  passed := by
    intro _
    rcases sound.passed wasPassed with admissible | ⟨notLarger, isCleaned⟩
    · exact Or.inl admissible
    · exact Or.inr ⟨notLarger.trans grown, implies isCleaned⟩
  grows := by
    intro isGrowing
    exact sound.grows (grows isGrowing)
  resizes := by
    intro grow isResize
    rw [isResize] at fits
    cases fits
  fits := by
    intro _
    exact notLarger
  writes := writes
  unmarks := unmarks

end OpenStage

namespace SharedFile

variable {ι : Type} [DecidableEq ι] {boost : SegmentManager}
  {environ : Environment} {requests : ι → OpenRequest}
  {start bytes bytes' : Bytes} {state next : SharedFile ι} {process : ι}
  {system : System} {stage : OpenStage} {free : Bool} {file : Option Bytes}

/-- A step of a process that has not to change the file afterwards, or that had
to before. -/
theorem PresentSound.proceeds
    (sound : PresentSound environ requests start state bytes)
    (advances : OpenStage.Advances boost environ (requests process) free file
      (state.stages process) stage (some bytes'))
    (isNext : next.stages = Function.update state.stages process stage)
    (isFile : next.file = some bytes')
    (header : ValidHeader environ bytes')
    (grown : bytes.length ≤ bytes'.length)
    (sameLength : bytes'.length = bytes.length ∨
      (state.stages process).grows = true)
    (clean : dirtyByte bytes' = 0 → dirtyByte bytes = 0 ∨
      Cleaned environ requests start next.stages bytes'.length)
    (goesTo : stage.Sound environ start (requests process) bytes'.length
      (Cleaned environ requests start next.stages bytes'.length))
    (needs : stage.NeedsGrowth (requests process) bytes'.length →
      (state.stages process).NeedsGrowth (requests process) bytes.length)
    (passed : stage.passed = true → (state.stages process).passed = true) :
    PresentSound environ requests start next bytes' := by
  apply sound.moves advances isNext isFile header grown sameLength clean goesTo
  · intro needsGrowth other isOther
    exact sound.alone process other isOther (needs needsGrowth)
  · intro isPassed other isOther needsGrowth
    have notPassed := sound.alone other process isOther.symm needsGrowth
    rw [passed isPassed] at notPassed
    cases notPassed

/-- A step that does not change the file. -/
theorem PresentSound.goesOn
    (sound : PresentSound environ requests start state bytes)
    (advances : OpenStage.Advances boost environ (requests process) free file
      (state.stages process) stage (some bytes))
    (isNext : next.stages = Function.update state.stages process stage)
    (isFile : next.file = some bytes)
    (goesTo : ∀ cleaned, (state.stages process).Sound environ start
      (requests process) bytes.length cleaned →
        stage.Sound environ start (requests process) bytes.length cleaned)
    (needs : stage.NeedsGrowth (requests process) bytes.length →
      (state.stages process).NeedsGrowth (requests process) bytes.length)
    (passed : stage.passed = true → (state.stages process).passed = true) :
    PresentSound environ requests start next bytes := by
  apply sound.proceeds advances isNext isFile sound.header le_rfl (Or.inl rfl)
    Or.inl _ needs passed
  apply goesTo
  apply (sound.stage process).mono le_rfl
  · intro cleaned
    exact cleaned.advances advances isNext le_rfl
  · intro _ _
    rfl

/-- A step of a process that has compared its request with the file. -/
theorem PresentSound.advancesLate
    (sound : PresentSound environ requests start state bytes)
    (advances : OpenStage.Advances boost environ (requests process) free file
      (state.stages process) stage (some bytes'))
    (isNext : next.stages = Function.update state.stages process stage)
    (isFile : next.file = some bytes')
    (header : ValidHeader environ bytes')
    (grown : bytes.length ≤ bytes'.length)
    (sameLength : bytes'.length = bytes.length ∨
      (state.stages process).grows = true)
    (clean : dirtyByte bytes' = 0 → dirtyByte bytes = 0 ∨
      Cleaned environ requests start next.stages bytes'.length)
    (wasPassed : (state.stages process).passed = true)
    (fits : stage.fits = true)
    (notLarger : (requests process).sharedFileSize.toNat ≤ bytes'.length)
    (grows : stage.grows = true → (state.stages process).grows = true)
    (writes : ∀ size pending, stage = .writes size pending →
      ∀ write ∈ pending, headerSize ≤ write.1)
    (unmarks : ∀ size, stage = .unmarks size →
      (requests process).mode ≠ .mapped) :
    PresentSound environ requests start next bytes' := by
  have implies : Cleaned environ requests start state.stages bytes.length →
      Cleaned environ requests start next.stages bytes'.length := by
    intro cleaned
    exact cleaned.advances advances isNext grown
  have goesTo := (sound.stage process).goesOn grown implies wasPassed fits
    notLarger grows writes unmarks
  apply sound.proceeds advances isNext isFile header grown sameLength clean
    goesTo
  · intro needs
    rcases needs with isGrowing | ⟨isStage | isStage, _⟩
    · exact Or.inl (grows isGrowing)
    · rw [isStage] at fits
      cases fits
    · rw [isStage] at fits
      cases fits
  · intro _
    exact wasPassed

/-- The header check is passed by a process that has nothing to change or is
the only one that passes it. -/
theorem PresentSound.reads
    (sound : PresentSound environ requests start state bytes)
    (nonInterfering : NonInterfering environ requests (some start))
    (startHeader : ValidHeader environ start)
    (isReading : state.stages process = .reads)
    (clean : (requests process).allowDirty = true ∨ dirtyByte bytes = 0)
    (advances : OpenStage.Advances boost environ (requests process) free file
      (state.stages process) .looksAgain (some bytes))
    (isNext : next.stages = Function.update state.stages process .looksAgain)
    (isFile : next.file = some bytes) :
    PresentSound environ requests start next bytes := by
  have acceptable : (requests process).Acceptable := by
    apply (sound.stage process).acceptable <;>
    · rw [isReading]
      intro isOther
      cases isOther
  have notLeft : ¬ (state.stages process = .unlocks ∨
      state.stages process = .failed) := by
    rw [isReading]
    intro left
    rcases left with isLeft | isLeft <;> cases isLeft
  have passes : (requests process).Admissible environ start ∨
      (requests process).sharedFileSize.toNat ≤ bytes.length ∧
        Cleaned environ requests start state.stages bytes.length := by
    rcases clean with allowed | isClean
    · exact Or.inl ⟨acceptable, startHeader, Or.inl allowed⟩
    · rcases sound.clean isClean with wasClean | cleaned
      · exact Or.inl ⟨acceptable, startHeader, Or.inr wasClean⟩
      · right
        refine ⟨?_, cleaned⟩
        rcases cleaned with ⟨other, admissible, notMapped, left, notLarger⟩
        have isOther : other ≠ process := by
          intro isSame
          rw [isSame] at left
          exact notLeft left
        have bounded := nonInterfering.cleaned start rfl other process isOther
          admissible notMapped acceptable
        exact bounded.trans (max_le sound.notSmaller notLarger)
  apply sound.moves advances isNext isFile sound.header le_rfl (Or.inl rfl)
    Or.inl
  · have goesTo : OpenStage.Sound environ start (requests process) bytes.length
        (Cleaned environ requests start state.stages bytes.length)
          .looksAgain :=
      .undecided acceptable passes (Or.inl rfl)
    apply goesTo.mono le_rfl
    · intro cleaned
      exact cleaned.advances advances isNext le_rfl
    · intro _ _
      rfl
  · intro needs other isOther
    by_contra isPassed
    rw [Bool.not_eq_false] at isPassed
    have larger : bytes.length < (requests process).sharedFileSize.toNat := by
      rcases needs with grows | ⟨_, larger⟩
      · cases grows
      · exact larger
    have admissible := passes.resolve_right fun fits =>
      Nat.not_le.mpr larger fits.1
    have otherPasses := (sound.stage other).passed isPassed
    have bounded := not_larger_of_passes nonInterfering isOther admissible
      notLeft (otherPasses.imp_right And.right)
    have notSmaller := sound.notSmaller
    omega
  · intro _ other isOther needs
    have otherLarger := sound.larger needs
    have bounded := not_larger_of_passes nonInterfering isOther.symm
      otherLarger.1 (not_left_of_needsGrowth needs)
      (passes.imp_right And.right)
    have larger := otherLarger.2
    omega

/-- A step that ends before the header check is passed. -/
theorem PresentSound.keepsEarly
    (sound : PresentSound environ requests start state bytes)
    (advances : OpenStage.Advances boost environ (requests process) free file
      (state.stages process) stage (some bytes))
    (isNext : next.stages = Function.update state.stages process stage)
    (isFile : next.file = some bytes)
    (acceptable : stage ≠ .failed → (requests process).Acceptable)
    (isEarly : stage = .looks ∨ stage = .reads ∨ stage = .failed) :
    PresentSound environ requests start next bytes := by
  apply sound.goesOn advances isNext isFile
  · intro cleaned _
    exact .early (fun _ => acceptable) (Or.inr isEarly)
  · intro needs
    rcases isEarly with isStage | isStage | isStage <;>
    · rw [isStage] at needs
      rcases needs with grows | ⟨isOther | isOther, _⟩
      · cases grows
      · cases isOther
      · cases isOther
  · intro passed
    rcases isEarly with isStage | isStage | isStage <;>
    · rw [isStage] at passed
      cases passed

/-- A step that does not change the file, of a process that need not grow
it. -/
theorem PresentSound.keepsLate {old : OpenStage}
    (sound : PresentSound environ requests start state bytes)
    (isOld : state.stages process = old)
    (advances : OpenStage.Advances boost environ (requests process) free file
      (state.stages process) stage (some bytes))
    (isNext : next.stages = Function.update state.stages process stage)
    (isFile : next.file = some bytes) (wasPassed : old.passed = true)
    (fits : stage.fits = true)
    (notLarger : (requests process).sharedFileSize.toNat ≤ bytes.length)
    (noGrowth : stage.grows = false)
    (unmarks : ∀ size, stage = .unmarks size →
      (requests process).mode ≠ .mapped) :
    PresentSound environ requests start next bytes := by
  rw [← isOld] at wasPassed
  apply sound.advancesLate advances isNext isFile sound.header le_rfl
    (Or.inl rfl) Or.inl wasPassed fits notLarger
  · intro grows
    rw [noGrowth] at grows
    cases grows
  · intro size pending isWrite write member
    rw [isWrite] at noGrowth
    cases pending with
    | nil => cases member
    | cons first rest => cases noGrowth
  · exact unmarks

/-- A byte of the file is changed. -/
theorem PresentSound.setsByte {old : OpenStage} {offset : Nat} {value : UInt8}
    (sound : PresentSound environ requests start state bytes)
    (isOld : state.stages process = old)
    (advances : OpenStage.Advances boost environ (requests process) free file
      (state.stages process) stage (some (bytes.set offset value)))
    (isNext : next.stages = Function.update state.stages process stage)
    (isFile : next.file = some (bytes.set offset value))
    (header : ValidHeader environ (bytes.set offset value))
    (clean : dirtyByte (bytes.set offset value) = 0 → dirtyByte bytes = 0 ∨
      Cleaned environ requests start next.stages bytes.length)
    (wasPassed : old.passed = true) (fits : stage.fits = true)
    (notLarger : (requests process).sharedFileSize.toNat ≤ bytes.length)
    (grows : stage.grows = true → old.grows = true)
    (writes : ∀ size pending, stage = .writes size pending →
      ∀ write ∈ pending, headerSize ≤ write.1)
    (unmarks : ∀ size, stage ≠ .unmarks size) :
    ∃ bytes', PresentSound environ requests start next bytes' := by
  have length : (bytes.set offset value).length = bytes.length :=
    List.length_set
  rw [← isOld] at wasPassed grows
  rw [← length] at clean notLarger
  refine ⟨bytes.set offset value, sound.advancesLate advances isNext isFile
    header length.ge (Or.inl length) clean wasPassed fits notLarger grows writes
    ?_⟩
  intro size isUnmark
  exact absurd isUnmark (unmarks size)

/-- The second look finds the file. -/
theorem PresentSound.looksAgain
    (sound : PresentSound environ requests start state bytes)
    (isOld : state.stages process = .looksAgain)
    (advances : OpenStage.Advances boost environ (requests process) free file
      (state.stages process) .measures (some bytes))
    (isNext : next.stages = Function.update state.stages process .measures)
    (isFile : next.file = some bytes) :
    PresentSound environ requests start next bytes := by
  apply sound.goesOn advances isNext isFile
  · intro cleaned looking
    rw [isOld] at looking
    exact .undecided (looking.acceptable (by decide) (by decide))
      (looking.passed rfl) (Or.inr rfl)
  · intro needs
    rw [isOld]
    rcases needs with grows | ⟨_, larger⟩
    · cases grows
    · exact Or.inr ⟨Or.inl rfl, larger⟩
  · intro _
    rw [isOld]
    rfl

/-- The process that finds the file too small is the one that passes the checks
of the start. -/
theorem PresentSound.measures
    (sound : PresentSound environ requests start state bytes) {grow : Nat}
    (isOld : state.stages process = .measures)
    (larger : bytes.length < (requests process).sharedFileSize.toNat)
    (advances : OpenStage.Advances boost environ (requests process) free file
      (state.stages process) (.resizes grow) (some bytes))
    (isNext : next.stages =
      Function.update state.stages process (.resizes grow))
    (isFile : next.file = some bytes) :
    PresentSound environ requests start next bytes := by
  apply sound.goesOn advances isNext isFile
  · intro cleaned measuring
    rw [isOld] at measuring
    have admissible := (measuring.passed rfl).resolve_right fun fits =>
      Nat.not_le.mpr larger fits.1
    have notSmaller := sound.notSmaller
    exact
      { acceptable := fun _ _ => admissible.1
        notCreates := rfl
        passed := fun _ => Or.inl admissible
        grows := fun _ => ⟨admissible, Nat.lt_of_le_of_lt notSmaller larger⟩
        resizes := fun _ _ => larger
        fits := by
          intro fits
          cases fits
        writes := by
          intro size pending isWrite
          cases isWrite
        unmarks := by
          intro size isUnmark
          cases isUnmark }
  · intro _
    rw [isOld]
    exact Or.inr ⟨Or.inr rfl, larger⟩
  · intro _
    rw [isOld]
    rfl

/-- The file gets the size of the request. -/
theorem PresentSound.resizes
    (sound : PresentSound environ requests start state bytes) {grow : Nat}
    (isOld : state.stages process = .resizes grow)
    (advances : OpenStage.Advances boost environ (requests process) free file
      (state.stages process) (.maps grow)
      (some (resized (requests process).sharedFileSize.toNat bytes)))
    (isNext : next.stages = Function.update state.stages process (.maps grow))
    (isFile : next.file =
      some (resized (requests process).sharedFileSize.toNat bytes)) :
    PresentSound environ requests start next
      (resized (requests process).sharedFileSize.toNat bytes) := by
  have larger := (sound.stage process).resizes grow isOld
  have length := resized_length bytes larger
  have isAppend := resized_eq_append larger
  apply sound.advancesLate advances isNext isFile
  · rw [isAppend]
    exact sound.header.append _
  · rw [length]
    exact larger.le
  · rw [isOld]
    exact Or.inr rfl
  · rw [isAppend, dirtyByte_append sound.header.long]
    exact Or.inl
  · rw [isOld]
    rfl
  · rfl
  · rw [length]
  · intro _
    rw [isOld]
    rfl
  · intro size pending isWrite
    cases isWrite
  · intro size isUnmark
    cases isUnmark

/-- What is written into the grown segment is known when the file is mapped. -/
theorem PresentSound.maps
    (sound : PresentSound environ requests start state bytes) {grow : Nat}
    (isOld : state.stages process = .maps grow)
    (advances : OpenStage.Advances boost environ (requests process) free file
      (state.stages process)
      (.writes bytes.length (OpenStage.grownWrites boost bytes grow))
      (some bytes))
    (isNext : next.stages = Function.update state.stages process
      (.writes bytes.length (OpenStage.grownWrites boost bytes grow)))
    (isFile : next.file = some bytes) :
    PresentSound environ requests start next bytes := by
  have notLarger : (requests process).sharedFileSize.toNat ≤ bytes.length := by
    apply (sound.stage process).fits
    rw [isOld]
    rfl
  apply sound.advancesLate advances isNext isFile sound.header le_rfl
    (Or.inl rfl) Or.inl _ rfl notLarger
  · intro grows
    rw [isOld]
    by_contra notGrows
    have noGrowth : grow = 0 := by
      simpa [OpenStage.grows] using notGrows
    rw [noGrowth] at grows
    cases grows
  · intro size pending isWrite
    cases isWrite
    intro write member
    rw [OpenStage.grownWrites] at member
    split at member
    · cases member
    · have isOffset := List.mem_map.mp member
      rcases isOffset with ⟨offset, _, isWrite⟩
      rw [← isWrite]
      exact Nat.le_add_right _ _
  · intro size isUnmark
    cases isUnmark
  · rw [isOld]
    rfl

/-- Every step keeps the invariant. -/
theorem PresentSound.of_advances
    (sound : PresentSound environ requests start state bytes)
    (nonInterfering : NonInterfering environ requests (some start))
    (startHeader : ValidHeader environ start) {old : OpenStage}
    {content : Option Bytes} (isOld : state.stages process = old)
    (advances : OpenStage.Advances boost environ (requests process) free
      (some bytes) old stage content)
    (isNext : next.stages = Function.update state.stages process stage)
    (isFile : next.file = content) :
    ∃ bytes', PresentSound environ requests start next bytes' := by
  have steps : OpenStage.Advances boost environ (requests process) free
      (some bytes) (state.stages process) stage content := by
    rw [isOld]
    exact advances
  have oldSound := sound.stage process
  rw [isOld] at oldSound
  cases advances with
  | fails =>
      exact ⟨bytes, sound.keepsEarly steps isNext isFile (absurd rfl)
        (Or.inr (Or.inr rfl))⟩
  | starts acceptable =>
      exact ⟨bytes, sound.keepsEarly steps isNext isFile (fun _ => acceptable)
        (Or.inl rfl)⟩
  | looksPresent present =>
      have acceptable := oldSound.acceptable (by decide) (by decide)
      exact ⟨bytes, sound.keepsEarly steps isNext isFile (fun _ => acceptable)
        (Or.inr (Or.inl rfl))⟩
  | looksAbsent absent => cases absent
  | reads found isFound header clean =>
      rw [← Option.some.inj isFound] at clean
      exact ⟨bytes, sound.reads nonInterfering startHeader isOld clean steps
        isNext isFile⟩
  | againPresent present =>
      exact ⟨bytes, sound.looksAgain isOld steps isNext isFile⟩
  | againAbsent absent => cases absent
  | truncates => cases oldSound.notCreates
  | resizesNew => cases oldSound.notCreates
  | mapsNew => cases oldSound.notCreates
  | grows found isFound larger =>
      rw [← Option.some.inj isFound] at larger
      exact ⟨bytes, sound.measures isOld larger steps isNext isFile⟩
  | stays found isFound notLarger =>
      rw [← Option.some.inj isFound] at notLarger
      refine ⟨bytes, sound.keepsLate isOld steps isNext isFile rfl rfl notLarger
        rfl ?_⟩
      intro size isUnmark
      cases isUnmark
  | resizes grow => exact ⟨_, sound.resizes isOld steps isNext isFile⟩
  | maps grow found isFound notEmpty =>
      rw [← Option.some.inj isFound] at steps isNext
      exact ⟨bytes, sound.maps isOld steps isNext isFile⟩
  | written size =>
      refine ⟨bytes, sound.keepsLate isOld steps isNext isFile rfl rfl
        (oldSound.fits rfl) rfl ?_⟩
      intro size isUnmark
      cases isUnmark
  | writes size write rest found isFound =>
      rw [← Option.some.inj isFound] at steps isFile
      have isBehind := oldSound.writes size (write :: rest) rfl
      have behind := isBehind write List.mem_cons_self
      apply sound.setsByte isOld steps isNext isFile
        (sound.header.set_behind behind write.2) _ rfl rfl (oldSound.fits rfl)
      · intro _
        rfl
      · intro other pending isWrite
        cases isWrite
        intro later member
        exact isBehind later (List.mem_cons_of_mem write member)
      · intro other isUnmark
        cases isUnmark
      · have isOther : write.1 ≠ headerDirtyBitOffset := by
          rw [headerSize] at behind
          rw [headerDirtyBitOffset]
          omega
        rw [dirtyByte_set_other isOther]
        exact Or.inl
  | locks size isFree =>
      refine ⟨bytes, sound.keepsLate isOld steps isNext isFile rfl rfl
        (oldSound.fits rfl) rfl ?_⟩
      intro size isUnmark
      cases isUnmark
  | marks size found isFound =>
      rw [← Option.some.inj isFound] at steps isFile
      apply sound.setsByte isOld steps isNext isFile (sound.header.set_mark 1) _
        rfl rfl (oldSound.fits rfl)
      · intro grows
        cases grows
      · intro other pending isWrite
        cases isWrite
      · intro other isUnmark
        cases isUnmark
      · rw [dirtyByte_set sound.header.long]
        intro isClean
        cases isClean
  | loads size =>
      refine ⟨bytes, sound.keepsLate isOld steps isNext isFile rfl rfl
        (oldSound.fits rfl) rfl ?_⟩
      intro size isUnmark
      cases isUnmark
  | aborts size notMapped =>
      exact ⟨bytes, sound.keepsLate isOld steps isNext isFile rfl rfl
        (oldSound.fits rfl) rfl fun _ _ => notMapped⟩
  | unmarks size found isFound =>
      rw [← Option.some.inj isFound] at steps isFile
      have isUnlocking : next.stages process = .unlocks := by
        rw [isNext, Function.update_self]
      have cleaned : Cleaned environ requests start next.stages
          bytes.length := by
        rcases oldSound.passed rfl with admissible | ⟨_, cleaned⟩
        · exact ⟨process, admissible, oldSound.unmarks size rfl,
            Or.inl isUnlocking, oldSound.fits rfl⟩
        · exact cleaned.advances steps isNext le_rfl
      apply sound.setsByte isOld steps isNext isFile (sound.header.set_mark 0)
        (fun _ => Or.inr cleaned) rfl rfl (oldSound.fits rfl)
      · intro grows
        cases grows
      · intro other pending isWrite
        cases isWrite
      · intro other isUnmark
        cases isUnmark
  | stops =>
      refine ⟨bytes, sound.keepsLate isOld steps isNext isFile rfl rfl
        (oldSound.fits rfl) rfl ?_⟩
      intro size isUnmark
      cases isUnmark

/-- No other process changes the file while one holds the lock. -/
theorem PresentSound.othersKeep
    (sound : PresentSound environ requests start state bytes)
    (locked : state.Locked) {holder other : ι}
    (isLocked : state.lock = some holder) (isOther : other ≠ holder) :
    (state.next boost environ requests other system).file = state.file := by
  have advances := outcome_advances boost environ requests state other system
  have holds := (locked holder).mp isLocked
  rw [next_file]
  rcases advances.changes with same | grows | otherHolds | creates
  · exact same
  · have notPassed := sound.alone other holder isOther.symm (Or.inl grows)
    rw [OpenStage.passed_of_holds holds] at notPassed
    cases notPassed
  · exact absurd (locked.unique otherHolds holds) isOther
  · rw [(sound.stage other).notCreates] at creates
    cases creates

end SharedFile

/-! ## Other files -/

section Rejected

variable {boost : SegmentManager} {environ : Environment}
  {request : OpenRequest} {free : Bool} {file content : Option Bytes}
  {stage stage' : OpenStage}

/-- Only an acceptable request is looked at any further. -/
theorem OpenStage.Advances.acceptable
    (advances : Advances boost environ request free file stage stage' content)
    (wasAcceptable : stage ≠ .starts → stage ≠ .failed → request.Acceptable)
    (notFailed : stage' ≠ .failed) : request.Acceptable := by
  cases advances with
  | fails => exact absurd rfl notFailed
  | starts acceptable => exact acceptable
  | _ =>
      apply wasAcceptable <;>
      · intro isOther
        cases isOther

/-- Without a valid header nobody passes the check. -/
theorem OpenStage.Advances.not_passed {bytes : Bytes}
    (advances : Advances boost environ request free (some bytes) stage stage'
      content) (noHeader : ¬ ValidHeader environ bytes)
    (notPassed : stage.passed = false) :
    stage'.passed = false ∧ content = some bytes := by
  cases advances with
  | fails => exact ⟨rfl, rfl⟩
  | starts acceptable => exact ⟨rfl, rfl⟩
  | looksPresent present => exact ⟨rfl, rfl⟩
  | looksAbsent absent => cases absent
  | reads found isFile header clean =>
      rw [← Option.some.inj isFile] at header
      exact absurd header noHeader
  | _ => cases notPassed

/-- A file that stays empty is not mapped. -/
theorem OpenStage.Advances.unmapped
    (advances : Advances boost environ request free file stage stage' content)
    (noSize : stage ≠ .starts → stage ≠ .failed →
      request.sharedFileSize.toNat = 0)
    (isEmpty : ∀ bytes, file = some bytes → bytes = [])
    (wasUnmapped : stage.unmapped = true) :
    stage'.unmapped = true ∧ ∀ bytes, content = some bytes → bytes = [] := by
  cases advances with
  | fails => exact ⟨rfl, isEmpty⟩
  | starts acceptable => exact ⟨rfl, isEmpty⟩
  | looksPresent present => exact ⟨rfl, isEmpty⟩
  | looksAbsent absent => exact ⟨rfl, isEmpty⟩
  | reads bytes isFile header clean => exact ⟨rfl, isEmpty⟩
  | againPresent present => exact ⟨rfl, isEmpty⟩
  | againAbsent absent => exact ⟨rfl, isEmpty⟩
  | truncates =>
      refine ⟨rfl, ?_⟩
      intro bytes isBytes
      exact (Option.some.inj isBytes).symm
  | resizesNew =>
      refine ⟨rfl, ?_⟩
      intro bytes isBytes
      have isResized := Option.map_eq_some_iff.mp isBytes
      rcases isResized with ⟨found, isFound, isBytes⟩
      rw [← isBytes, isEmpty found isFound, resized_nil,
        noSize (by decide) (by decide)]
      rfl
  | mapsNew bytes isFile notEmpty =>
      rw [isEmpty bytes isFile] at notEmpty
      exact absurd rfl notEmpty
  | grows bytes isFile larger =>
      rw [noSize (by decide) (by decide)] at larger
      exact absurd larger (Nat.not_lt_zero _)
  | stays bytes isFile notLarger => exact ⟨rfl, isEmpty⟩
  | maps grow bytes isFile notEmpty =>
      rw [isEmpty bytes isFile] at notEmpty
      exact absurd rfl notEmpty
  | _ => cases wasUnmapped

/-- A process that holds the lock has mapped the file. -/
theorem OpenStage.not_unmapped_of_holds (holds : stage.holds = true) :
    stage.unmapped = false := by
  cases stage <;> first | rfl | cases holds

end Rejected

namespace SharedFile

variable {ι : Type} {boost : SegmentManager}
  {environ : Environment} {requests : ι → OpenRequest} {start : Bytes}
  {state : SharedFile ι} {process : ι} {system : System}

/-- What every state satisfies: a request that is not acceptable is not looked
at any further. -/
def Rejecting (requests : ι → OpenRequest) (state : SharedFile ι) : Prop :=
  ∀ process, state.stages process ≠ .starts →
    state.stages process ≠ .failed → (requests process).Acceptable

/-- What every state satisfies when the file has no valid header. -/
structure UnreadableSound (start : Bytes) (state : SharedFile ι) : Prop where
  isFile : state.file = some start
  notPassed : ∀ process, (state.stages process).passed = false

/-- What every state satisfies when no request asks for a file of any size. -/
structure EmptySound (state : SharedFile ι) : Prop where
  isEmpty : ∀ bytes, state.file = some bytes → bytes = []
  unmapped : ∀ process, (state.stages process).unmapped = true

/-- The process that holds the lock has an acceptable request. -/
theorem Rejecting.holder (rejecting : state.Rejecting requests)
    (holds : (state.stages process).holds = true) :
    (requests process).Acceptable := by
  apply rejecting process <;>
  · intro isStage
    rw [isStage] at holds
    cases holds

variable [DecidableEq ι]

theorem Rejecting.next (rejecting : state.Rejecting requests) :
    (state.next boost environ requests process system).Rejecting requests := by
  have advances := outcome_advances boost environ requests state process system
  intro other notStarts notFailed
  by_cases isOther : other = process
  · rw [isOther, next_stages_self] at notFailed
    rw [isOther]
    exact advances.acceptable (rejecting process) notFailed
  · rw [next_stages_other isOther] at notStarts notFailed
    exact rejecting other notStarts notFailed

theorem UnreadableSound.next (sound : state.UnreadableSound start)
    (noHeader : ¬ ValidHeader environ start) :
    (state.next boost environ requests process system).UnreadableSound
      start := by
  have advances := outcome_advances boost environ requests state process system
  rw [sound.isFile] at advances
  have stays := advances.not_passed noHeader (sound.notPassed process)
  refine ⟨stays.2, ?_⟩
  intro other
  by_cases isOther : other = process
  · rw [isOther, next_stages_self]
    exact stays.1
  · rw [next_stages_other isOther]
    exact sound.notPassed other

theorem EmptySound.next (sound : state.EmptySound)
    (rejecting : state.Rejecting requests)
    (noSize : ∀ process, (requests process).Acceptable →
      (requests process).sharedFileSize.toNat = 0) :
    (state.next boost environ requests process system).EmptySound := by
  have advances := outcome_advances boost environ requests state process system
  have stays := advances.unmapped
    (fun notStarts notFailed =>
      noSize process (rejecting process notStarts notFailed))
    sound.isEmpty (sound.unmapped process)
  refine ⟨stays.2, ?_⟩
  intro other
  by_cases isOther : other = process
  · rw [isOther, next_stages_self]
    exact stays.1
  · rw [next_stages_other isOther]
    exact sound.unmapped other

/-- A process whose request is not acceptable does not touch the file. -/
theorem Rejecting.othersKeep (rejecting : state.Rejecting requests)
    (notAcceptable : ¬ (requests process).Acceptable) :
    (state.next boost environ requests process system).file = state.file := by
  have advances := outcome_advances boost environ requests state process system
  have isEarly : state.stages process = .starts ∨
      state.stages process = .failed := by
    by_contra isOther
    rw [not_or] at isOther
    exact notAcceptable (rejecting process isOther.1 isOther.2)
  rw [next_file]
  rcases advances.changes with same | changes
  · exact same
  · rcases isEarly with isStage | isStage <;>
    · rw [isStage] at changes
      rcases changes with isChange | isChange | isChange <;> cases isChange

end SharedFile

/-! ## Runs -/

namespace SharedFile

variable {ι : Type} [DecidableEq ι] {boost : SegmentManager}
  {environ : Environment} {requests : ι → OpenRequest}
  {file : Option Bytes} {events : List (ι × System)} {final : SharedFile ι}

/-- What every step keeps holds in every state that is reached. -/
theorem holds_of_reached (invariant : SharedFile ι → Prop)
    (initially : invariant (start file))
    (preserved : ∀ state process system, invariant state →
      invariant (state.next boost environ requests process system))
    (reached : Runs.run (step boost environ requests) (start file) events =
      some final) : invariant final := by
  apply Runs.run_preserves invariant _ initially
    (Runs.allowedFrom_of_forall (fun _ _ => trivial) events _) reached
  intro state event next holds _ stepped
  rw [← Option.some.inj stepped]
  exact preserved state event.1 event.2 holds

theorem reached_locked
    (reached : Runs.run (step boost environ requests) (start file) events =
      some final) : final.Locked :=
  holds_of_reached Locked (start_locked file) (fun _ _ _ locked => locked.next)
    reached

theorem reached_rejecting
    (reached : Runs.run (step boost environ requests) (start file) events =
      some final) : final.Rejecting requests := by
  apply holds_of_reached (Rejecting requests) _ _ reached
  · intro process notStarts
    exact absurd rfl notStarts
  · intro state process system rejecting
    exact rejecting.next

/-- The file is there at the start. -/
theorem othersKeep_of_present {bytes : Bytes}
    (nonInterfering : NonInterfering environ requests (some bytes))
    (reached : Runs.run (step boost environ requests) (start (some bytes))
      events = some final) {holder other : ι} {system : System}
    (isLocked : final.lock = some holder) (isOther : other ≠ holder) :
    (final.next boost environ requests other system).file = final.file := by
  have locked := reached_locked reached
  by_cases header : ValidHeader environ bytes
  · have sound : ∃ now, PresentSound environ requests bytes final now := by
      apply holds_of_reached (fun state =>
        ∃ now, PresentSound environ requests bytes state now) _ _ reached
      · refine ⟨bytes, rfl, header, le_rfl, Or.inl, ?_, ?_⟩
        · intro process
          exact .early (fun notStarts => absurd rfl notStarts) (Or.inl rfl)
        · intro process other _ _
          rfl
      · intro state process system sound
        rcases sound with ⟨now, sound⟩
        have advances :=
          outcome_advances boost environ requests state process system
        rw [sound.isFile] at advances
        exact sound.of_advances nonInterfering header rfl advances rfl rfl
    rcases sound with ⟨now, sound⟩
    exact sound.othersKeep locked isLocked isOther
  · have sound : final.UnreadableSound bytes := by
      apply holds_of_reached (UnreadableSound bytes) _ _ reached
      · exact ⟨rfl, fun _ => rfl⟩
      · intro state process system sound
        exact sound.next header
    have holds := (locked holder).mp isLocked
    have notPassed := sound.notPassed holder
    rw [OpenStage.passed_of_holds holds] at notPassed
    cases notPassed

/-- There is no file at the start. -/
theorem othersKeep_of_absent
    (nonInterfering : NonInterfering environ requests none)
    (reached : Runs.run (step boost environ requests) (start none)
      events = some final) {holder other : ι} {system : System}
    (isLocked : final.lock = some holder) (isOther : other ≠ holder) :
    (final.next boost environ requests other system).file = final.file := by
  have locked := reached_locked reached
  have rejecting := reached_rejecting reached
  have holds := (locked holder).mp isLocked
  have acceptable := rejecting.holder holds
  by_cases otherAcceptable : (requests other).Acceptable
  · -- two acceptable requests are all of size 0
    have noSize : ∀ process, (requests process).Acceptable →
        (requests process).sharedFileSize.toNat = 0 := by
      intro process isAcceptable
      by_cases isHolder : process = holder
      · rw [isHolder]
        exact nonInterfering.absent rfl holder other isOther.symm acceptable
          otherAcceptable
      · exact nonInterfering.absent rfl process holder isHolder isAcceptable
          acceptable
    have sound : final.EmptySound ∧ final.Rejecting requests := by
      apply holds_of_reached (fun state =>
        state.EmptySound ∧ state.Rejecting requests) _ _ reached
      · refine ⟨⟨?_, fun _ => rfl⟩, fun _ notStarts => absurd rfl notStarts⟩
        intro bytes isNone
        cases isNone
      · intro state process system sound
        exact ⟨sound.1.next sound.2 noSize, sound.2.next⟩
    have unmapped := sound.1.unmapped holder
    rw [OpenStage.not_unmapped_of_holds holds] at unmapped
    cases unmapped
  · exact rejecting.othersKeep otherAcceptable

end SharedFile

/-- In every state that any interleaving of the constructors reaches, at most
one of them has succeeded, and no process changes the file while another one
holds the lock, if the requests do not disturb each other. -/
theorem only_holder_writes {ι : Type} [DecidableEq ι] (boost : SegmentManager)
    (environ : Environment) (requests : ι → OpenRequest) (file : Option Bytes)
    (nonInterfering : NonInterfering environ requests file)
    (events : List (ι × System)) (final : SharedFile ι)
    (reached : Runs.run (SharedFile.step boost environ requests)
      (SharedFile.start file) events = some final) :
    final.OnlyHolderWrites boost environ requests where
  oneSucceeds := by
    intro first second isFirst isSecond
    exact (SharedFile.reached_locked reached).oneSucceeds isFirst isSecond
  othersKeep := by
    intro holder other system isLocked isOther
    cases file with
    | none =>
        exact SharedFile.othersKeep_of_absent nonInterfering reached isLocked
          isOther
    | some bytes =>
        exact SharedFile.othersKeep_of_present nonInterfering reached isLocked
          isOther

/-! ## A request that disturbs another one -/

namespace OpenStage

variable {boost : SegmentManager} {environ : Environment}
  {request : OpenRequest} {free : Bool} {file : Option Bytes} {bytes : Bytes}

theorem continues_of_passes {α : Type} {program : FileM α} {post : α → Prop}
    {next : α → OpenStage} {stage : OpenStage}
    (passes : Passes (fun _ => True) program file (fun value _ => post value)
      (fun _ _ => False))
    (isNext : ∀ value, post value → next value = stage) :
    continues program file next = (stage, file) := by
  have ends := passes.ends trivial
  cases ran : program ⟨file, []⟩ with
  | ok value final =>
      rw [continues, ran]
      dsimp only
      rw [isNext value (ends.of_ok ran).2]
  | error fault final => exact (ends.of_error ran).2.elim

theorem step_starts (acceptable : request.Acceptable) :
    starts.step boost environ grantingSystem request.forWriting free file =
      (looks, file) := by
  have passes : Passes (fun _ => True)
      (do checkRequest request.forWriting
          answer grantingSystem.createDirectories)
      file (fun _ _ => True) (fun _ _ => False) := by
    apply passes_bind
    apply passes_checkRequest
    · intro _ notAccepted
      exact notAccepted ⟨acceptable.1, acceptable.2, Or.inl rfl⟩
    · intro _
      exact passes_pure trivial
  exact continues_of_passes passes fun _ _ => rfl

theorem step_reads (header : ValidHeader environ bytes)
    (clean : request.allowDirty = true ∨ dirtyByte bytes = 0) :
    reads.step boost environ grantingSystem request.forWriting free
      (some bytes) = (looksAgain, some bytes) := by
  have passes : Passes (fun _ => True)
      (do checkHeader environ request.forWriting (← fileBytes)) (some bytes)
      (fun _ _ => True) (fun _ _ => False) := by
    apply passes_bind
    apply passes_fileBytes
    apply passes_checkHeader
    · intro _ notValid
      exact notValid ⟨header, clean⟩
    · intro _ _
      trivial
  exact continues_of_passes passes fun _ _ => rfl

theorem step_measures :
    measures.step boost environ grantingSystem request.forWriting free
        (some bytes) =
      (if bytes.length < request.sharedFileSize.toNat then
        resizes (request.sharedFileSize.toNat - bytes.length)
      else maps 0, some bytes) := by
  have passes : Passes (fun _ => True) fileBytes (some bytes)
      (fun found _ => found = bytes) (fun _ _ => False) := passes_fileBytes rfl
  apply continues_of_passes passes
  intro found isFound
  rw [isFound]
  rfl

theorem step_maps {grow : Nat} (notEmpty : bytes.length ≠ 0) :
    (maps grow).step boost environ grantingSystem request.forWriting free
        (some bytes) =
      (writes bytes.length (grownWrites boost bytes grow), some bytes) := by
  have passes : Passes (fun _ => True) (mapRegion grantingSystem) (some bytes)
      (fun found _ => found = bytes) (fun _ _ => False) := by
    apply passes_mapRegion
    · intro _ refused
      rcases refused with notMapped | isEmpty
      · exact notMapped rfl
      · exact notEmpty isEmpty
    · intro _ _
      rfl
  apply continues_of_passes passes
  intro found isFound
  rw [isFound]

end OpenStage

namespace SharedFile

variable {ι : Type} [DecidableEq ι] {boost : SegmentManager}
  {environ : Environment} {requests : ι → OpenRequest} {state : SharedFile ι}
  {process : ι} {bytes : Bytes} {stage : OpenStage}

/-- The state with a process at another step. -/
def goes (state : SharedFile ι) (process : ι) (stage : OpenStage) :
    SharedFile ι :=
  { state with stages := Function.update state.stages process stage }

theorem goes_goes (first second : OpenStage) :
    (state.goes process first).goes process second =
      state.goes process second := by
  rw [goes, goes, goes, Function.update_idem]

theorem goes_stages_self : (state.goes process stage).stages process = stage :=
  Function.update_self _ _ _

theorem goes_stages_other {other : ι} (isOther : other ≠ process) :
    (state.goes process stage).stages other = state.stages other :=
  Function.update_of_ne isOther _ _

/-- A step that neither changes the file nor takes the lock. -/
theorem reaches_goes (system : System) (notHolder : state.lock ≠ some process)
    (isOutcome : state.outcome boost environ requests process system =
      (stage, state.file)) (holdsNot : stage.holds = false) :
    Runs.Reaches (step boost environ requests) state
      (state.goes process stage) := by
  apply Runs.Reaches.of_step (process, system)
  rw [step, next, isOutcome]
  dsimp only
  rw [holdsNot, if_neg notHolder]
  rfl

/-- A process goes on from one step to another. -/
theorem reaches_second {first second : OpenStage}
    (notHolder : state.lock ≠ some process)
    (isStep : first.step boost environ grantingSystem
      (requests process).forWriting state.lock.isNone state.file =
        (second, state.file))
    (holdsNot : second.holds = false) :
    Runs.Reaches (step boost environ requests) (state.goes process first)
      (state.goes process second) := by
  have stillNot : (state.goes process first).lock ≠ some process := notHolder
  rw [← goes_goes first second]
  apply reaches_goes grantingSystem stillNot _ holdsNot
  rw [outcome, goes_stages_self]
  exact isStep

theorem goes_self (isStage : state.stages process = stage) :
    state.goes process stage = state := by
  rw [goes, ← isStage, Function.update_eq_self]

/-- A process that passes the checks of a file measures it. -/
theorem reaches_measures (notHolder : state.lock ≠ some process)
    (isStart : state.stages process = .starts)
    (isFile : state.file = some bytes)
    (admissible : (requests process).Admissible environ bytes) :
    Runs.Reaches (step boost environ requests) state
      (state.goes process .measures) := by
  have looks : Runs.Reaches (step boost environ requests)
      (state.goes process .starts) (state.goes process .looks) :=
    reaches_second notHolder (OpenStage.step_starts admissible.1) rfl
  have reads : Runs.Reaches (step boost environ requests)
      (state.goes process .looks) (state.goes process .reads) := by
    apply reaches_second notHolder _ rfl
    rw [isFile]
    rfl
  have looksAgain : Runs.Reaches (step boost environ requests)
      (state.goes process .reads) (state.goes process .looksAgain) := by
    apply reaches_second notHolder _ rfl
    rw [isFile]
    exact OpenStage.step_reads admissible.2.1 admissible.2.2
  have measures : Runs.Reaches (step boost environ requests)
      (state.goes process .looksAgain) (state.goes process .measures) := by
    apply reaches_second notHolder _ rfl
    rw [isFile]
    rfl
  rw [goes_self isStart] at looks
  exact looks.trans (reads.trans (looksAgain.trans measures))

/-- A process that asks for more than there is will resize the file. -/
theorem reaches_resizes (notHolder : state.lock ≠ some process)
    (isFile : state.file = some bytes)
    (larger : bytes.length < (requests process).sharedFileSize.toNat) :
    Runs.Reaches (step boost environ requests) (state.goes process .measures)
      (state.goes process (.resizes
        ((requests process).sharedFileSize.toNat - bytes.length))) := by
  apply reaches_second notHolder _ rfl
  rw [isFile, OpenStage.step_measures, if_pos larger]

/-- A process that asks for no more than there is takes the free lock. -/
theorem reaches_marks (isFree : state.lock = none)
    (isFile : state.file = some bytes) (notEmpty : bytes.length ≠ 0)
    (notLarger : (requests process).sharedFileSize.toNat ≤ bytes.length) :
    Runs.Reaches (step boost environ requests) (state.goes process .measures)
      { file := state.file
        lock := some process
        stages := Function.update state.stages process
          (.marks bytes.length) } := by
  have notHolder : state.lock ≠ some process := by
    rw [isFree]
    exact (Option.some_ne_none process).symm
  have maps : Runs.Reaches (step boost environ requests)
      (state.goes process .measures) (state.goes process (.maps 0)) := by
    apply reaches_second notHolder _ rfl
    rw [isFile, OpenStage.step_measures, if_neg (Nat.not_lt.mpr notLarger)]
  have writes : Runs.Reaches (step boost environ requests)
      (state.goes process (.maps 0))
      (state.goes process (.writes bytes.length [])) := by
    apply reaches_second notHolder _ rfl
    rw [isFile]
    exact OpenStage.step_maps notEmpty
  have locks : Runs.Reaches (step boost environ requests)
      (state.goes process (.writes bytes.length []))
      (state.goes process (.locks bytes.length)) :=
    reaches_second notHolder rfl rfl
  have marks : Runs.Reaches (step boost environ requests)
      (state.goes process (.locks bytes.length))
      { file := state.file
        lock := some process
        stages := Function.update state.stages process
          (.marks bytes.length) } := by
    apply Runs.Reaches.of_step (process, grantingSystem)
    have isOutcome : (state.goes process (.locks bytes.length)).outcome boost
        environ requests process grantingSystem =
          (.marks bytes.length, state.file) := by
      rw [outcome, goes_stages_self]
      have stillFree : (state.goes process (.locks bytes.length)).lock =
        none := isFree
      rw [stillFree]
      rfl
    rw [step, next, isOutcome]
    have sameStages : Function.update
        (state.goes process (.locks bytes.length)).stages process
          (OpenStage.marks bytes.length) =
        Function.update state.stages process (.marks bytes.length) :=
      Function.update_idem _ _ _
    dsimp only
    rw [sameStages]
    rfl
  exact maps.trans (writes.trans (locks.trans marks))

theorem resized_length_eq (size : Nat) (bytes : Bytes) :
    (resized size bytes).length = size := by
  rw [resized, List.length_append, List.length_take, List.length_replicate]
  omega

/-- A process that asks for more than an existing file has can change the file
while another one holds the lock that asks for no more. -/
theorem larger_request_disturbs {holder other : ι}
    (isOther : other ≠ holder)
    (holderAdmissible : (requests holder).Admissible environ bytes)
    (otherAdmissible : (requests other).Admissible environ bytes)
    (notLarger : (requests holder).sharedFileSize.toNat ≤ bytes.length)
    (larger : bytes.length < (requests other).sharedFileSize.toNat) :
    ∃ final : SharedFile ι,
      Runs.Reaches (step boost environ requests) (start (some bytes)) final ∧
        final.lock = some holder ∧
        (final.next boost environ requests other grantingSystem).file ≠
          final.file := by
  have noLock : ∀ process : ι,
      (start (some bytes) : SharedFile ι).lock ≠ some process := fun process =>
    (Option.some_ne_none process).symm
  have notEmpty : bytes.length ≠ 0 := by
    have long := otherAdmissible.2.1.long
    rw [headerSize] at long
    omega
  -- the other process decides to resize the file
  have measured : Runs.Reaches (step boost environ requests) _ _ :=
    reaches_measures (noLock other) rfl rfl otherAdmissible
  have decided : Runs.Reaches (step boost environ requests) _ _ :=
    reaches_resizes (noLock other) rfl larger
  have reached := measured.trans decided
  generalize isMiddle : (start (some bytes)).goes other (.resizes
    ((requests other).sharedFileSize.toNat - bytes.length)) = middle at reached
  have isFile : middle.file = some bytes := by
    rw [← isMiddle]
    rfl
  have isFree : middle.lock = none := by
    rw [← isMiddle]
    rfl
  have isStart : middle.stages holder = .starts := by
    rw [← isMiddle, goes_stages_other isOther.symm]
    rfl
  have isWaiting : middle.stages other = .resizes
      ((requests other).sharedFileSize.toNat - bytes.length) := by
    rw [← isMiddle, goes_stages_self]
  have notHolder : middle.lock ≠ some holder := by
    rw [isFree]
    exact (Option.some_ne_none holder).symm
  -- the holder gets the lock
  have holderMeasured : Runs.Reaches (step boost environ requests) _ _ :=
    reaches_measures notHolder isStart isFile holderAdmissible
  have locked : Runs.Reaches (step boost environ requests) _ _ :=
    reaches_marks isFree isFile notEmpty notLarger
  refine ⟨_, reached.trans (holderMeasured.trans locked), rfl, ?_⟩
  rw [next_file, outcome]
  dsimp only
  rw [Function.update_of_ne isOther, isWaiting, isFile]
  intro same
  have sameBytes : resized (requests other).sharedFileSize.toNat bytes =
      bytes := Option.some.inj same
  have length := resized_length_eq (requests other).sharedFileSize.toNat bytes
  rw [sameBytes] at length
  omega

end SharedFile

/-! ## Two processes -/

/-- Two requests to use a file, in mapped mode, the second one with another
size. -/
def twoRequests (size : UInt64) : Bool → OpenRequest
  | false => requestIn .mapped 0
  | true => requestIn .mapped size

theorem twoRequests_admissible {size : UInt64} {bytes : Bytes}
    (isMultiple : size.toNat % dbSizeMultipleRequirement = 0)
    (header : ValidHeader zeroEnvironment bytes) (process : Bool) :
    (twoRequests size process).Admissible zeroEnvironment bytes := by
  cases process with
  | false => exact ⟨⟨rfl, Or.inl rfl⟩, header, Or.inl rfl⟩
  | true => exact ⟨⟨isMultiple, Or.inl rfl⟩, header, Or.inl rfl⟩

/-- Both processes use the file as it is, and one of them has the lock. -/
theorem only_holder_writes_twoProcesses :
    ∃ events final,
      Runs.run (SharedFile.step sizeManager zeroEnvironment (twoRequests 0))
        (SharedFile.start (some oneBlock)) events = some final ∧
      final.lock = some false ∧
      final.OnlyHolderWrites sizeManager zeroEnvironment (twoRequests 0) := by
  have noSize : ∀ process,
      (twoRequests 0 process).sharedFileSize.toNat = 0 := by
    intro process
    cases process <;> rfl
  have nonInterfering : NonInterfering zeroEnvironment (twoRequests 0)
      (some oneBlock) := by
    refine ⟨?_, ?_, ?_⟩
    · intro isNone
      cases isNone
    · intro bytes _ first _ _ _ _
      rw [noSize first]
      exact Nat.zero_le _
    · intro bytes _ first second _ _ _ _
      rw [noSize second]
      exact Nat.zero_le _
  have notLocked : (SharedFile.start (some oneBlock)).lock ≠ some false :=
    (Option.some_ne_none false).symm
  have notEmpty : oneBlock.length ≠ 0 := by
    rw [oneBlock_length]
    decide
  have notLarger : (twoRequests 0 false).sharedFileSize.toNat ≤
      oneBlock.length := Nat.zero_le _
  have measured : Runs.Reaches
      (SharedFile.step sizeManager zeroEnvironment (twoRequests 0)) _ _ :=
    SharedFile.reaches_measures notLocked rfl rfl
      (twoRequests_admissible rfl oneBlock_validHeader false)
  have locked : Runs.Reaches
      (SharedFile.step sizeManager zeroEnvironment (twoRequests 0))
      ((SharedFile.start (some oneBlock)).goes false .measures) _ :=
    SharedFile.reaches_marks rfl rfl notEmpty notLarger
  rcases measured.trans locked with ⟨events, reached⟩
  exact ⟨events, _, reached, rfl, only_holder_writes sizeManager
    zeroEnvironment (twoRequests 0) (some oneBlock) nonInterfering events _
    reached⟩

/-- One process holds the lock of a file of one block, and the other one makes
it larger. -/
theorem locked_file_is_resized :
    ∃ events final,
      Runs.run (SharedFile.step sizeManager zeroEnvironment
        (twoRequests 2097152)) (SharedFile.start (some oneBlock)) events =
          some final ∧
      ¬ final.OnlyHolderWrites sizeManager zeroEnvironment
        (twoRequests 2097152) := by
  have isMultiple : (2097152 : UInt64).toNat % dbSizeMultipleRequirement = 0 :=
    by decide
  have admissible : ∀ process, (twoRequests 2097152 process).Admissible
      zeroEnvironment oneBlock :=
    twoRequests_admissible isMultiple oneBlock_validHeader
  have notLarger : (twoRequests 2097152 false).sharedFileSize.toNat ≤
      oneBlock.length := Nat.zero_le _
  have larger : oneBlock.length <
      (twoRequests 2097152 true).sharedFileSize.toNat := by
    rw [oneBlock_length]
    decide
  have isOther : true ≠ false := by decide
  have disturbed : ∃ final : SharedFile Bool,
      Runs.Reaches (SharedFile.step sizeManager zeroEnvironment
        (twoRequests 2097152)) (SharedFile.start (some oneBlock)) final ∧ _ :=
    SharedFile.larger_request_disturbs isOther (admissible false)
      (admissible true) notLarger larger
  rcases disturbed with ⟨final, ⟨events, reached⟩, isLocked, changes⟩
  refine ⟨events, final, reached, ?_⟩
  intro onlyHolder
  exact changes (onlyHolder.othersKeep false true grantingSystem isLocked
    isOther)

end StateDatabase
