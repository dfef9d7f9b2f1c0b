import Mathlib
import StateDatabase.FailingSession
import StateDatabase.UnregisteredIndices

/-!
# Registrations that fail

`add_index` of a new type constructs the index in the segment, raises its undo
depth to that of the first registered index, and then puts it into `_index_map`
and `_index_list`.  It can run out of memory at each of these steps, and takes
back none of those before.

A call that fails inside the loop leaves an index with a shorter undo stack in
the segment, and the next call refuses it as the index of a corrupted database.
One that fails behind the loop leaves an index with the range that the first one
has then, and a later call refuses it when the range of the first one has
changed.  A call that fails at `_index_list.push_back` leaves the index in
`_index_map` only, and every later call finds its type in use.
-/

namespace StateDatabase

open Programs GenericIndex

variable {τ : Type} [DecidableEq τ] {F : IndexFamily τ}

/-- The places at which `add_index` asks for memory. -/
inductive AddSite where
  /-- the names of the types -/
  | names
  /-- the index in the segment -/
  | construct
  /-- `_stack.emplace_back` in a round of the loop -/
  | replay (round : Nat)
  /-- `_index_map.resize` -/
  | resize
  /-- `new index<…>` -/
  | newIndex
  /-- `_index_list.push_back` -/
  | pushBack
deriving DecidableEq

/-- The database with `_index_map`: the types whose entry is not null. -/
structure Registry (F : IndexFamily τ) where
  database : Database F
  indexMap : τ → Bool

/-- The map and the list agree. -/
def Registry.of (database : Database F) : Registry F :=
  { database := database, indexMap := fun t => decide (t ∈ database.indexList) }

/-- After later calls: registered types have entries, and no entry goes. -/
def Registry.after (registry : Registry F) (database : Database F) :
    Registry F :=
  { database := database
    indexMap := fun t =>
      decide (t ∈ database.indexList) || registry.indexMap t }

namespace Limited

open Database

abbrev RegistryM (F : IndexFamily τ) := EStateM Fault (Registry F)

def onFile {α : Type} (program : DatabaseM F α) : RegistryM F α :=
  zoom Registry.database
    (fun registry final => { registry with database := final }) program

variable (refuses : AddSite → Bool)

def replaySessions {T : IndexType} (target : Int) :
    Nat → Nat → IndexM T PUnit
  | _, 0 => pure ⟨⟩
  | round, rounds + 1 => do
      if (← get).revision < target then
        allocate refuses (.replay round)
        GenericIndex.startUndoSession
        replaySessions target (round + 1) rounds

def adoptRange {T : IndexType} (expected : Int × Int) : IndexM T PUnit := do
  GenericIndex.setRevision (UInt64.ofInt expected.1)
  replaySessions refuses expected.2 0 (expected.2 - (← get).revision).toNat

def findOrConstruct (t : τ) : DatabaseM F Bool := do
  let database ← get
  match database.segment t with
  | some _ => return false
  | none =>
      if database.readOnly then
        throw (.runtimeError ("unable to find index for " ++ F.typeName t ++
          " in read only database"))
      allocate refuses .construct
      set (database.setIndex t (GenericIndex.empty (F.indexType t)))
      return true

def reconcile (t front : τ) (firstTimeAdding : Bool) : DatabaseM F PUnit := do
  let database ← get
  match database.revisionRange front, database.revisionRange t with
  | some expected, some added =>
      if added ≠ expected then
        if firstTimeAdding = false then
          throw (.logicError
            (inconsistentMessage (F.typeName t) added expected))
        if database.readOnly then
          throw (.logicError ("new index for " ++ F.typeName t ++
            " requires an undo stack that is consistent with other indices " ++
            "in the database; cannot fix in read-only mode"))
        onIndex t (adoptRange refuses expected)
  | _, _ => throw .undefined

/-- What `add_index` does in the segment. -/
def bringIn (t : τ) : DatabaseM F PUnit := do
  let database ← get
  let firstTimeAdding ← findOrConstruct refuses t
  match database.indexList with
  | [] => pure ⟨⟩
  | front :: _ => reconcile refuses t front firstTimeAdding

def addIndex (t : τ) : RegistryM F PUnit := do
  allocate refuses .names
  let registry ← get
  if registry.indexMap t then
    throw (.logicError (F.typeName t ++ "::type_id is already in use"))
  onFile (bringIn refuses t)
  allocate refuses .resize
  allocate refuses .newIndex
  let registry ← get
  set { registry with indexMap := Function.update registry.indexMap t true }
  allocate refuses .pushBack
  onFile (register t)

/-! ## With enough memory -/

section Generous

theorem replaySessions_generous {T : IndexType} (target : Int) :
    ∀ round rounds : Nat,
      (replaySessions (fun _ => false) target round rounds : IndexM T PUnit) =
        Database.replaySessions target rounds
  | _, 0 => rfl
  | round, rounds + 1 => by
      have granted : (allocate (fun _ => false) (AddSite.replay round) :
          IndexM T PUnit) = pure ⟨⟩ := rfl
      simp only [replaySessions, Database.replaySessions, granted, pure_bind,
        replaySessions_generous target (round + 1) rounds]

theorem bringIn_generous {database : Database F} {t : τ}
    (unregistered : t ∉ database.indexList) :
    (bringIn (fun _ => false) t >>= fun _ => register t) database =
      Database.addIndex t database := by
  have constructs : (findOrConstruct (fun _ => false) t : DatabaseM F Bool) =
      Database.findOrConstruct t := rfl
  have reconciles : ∀ front firstTimeAdding,
      (reconcile (fun _ => false) t front firstTimeAdding :
        DatabaseM F PUnit) = Database.reconcile t front firstTimeAdding := by
    intro front firstTimeAdding
    have adopts : (adoptRange (fun _ => false) :
        Int × Int → IndexM (F.indexType t) PUnit) = Database.adoptRange := by
      funext expected
      simp only [adoptRange, Database.adoptRange, replaySessions_generous]
    unfold reconcile
    rw [adopts]
    rfl
  symm
  apply addIndex_unregistered unregistered
  simp only [bringIn, constructs, reconciles, bind_assoc]
  rw [bind_apply_of_ok _ (get_apply database)]
  cases database.indexList with
  | nil => simp
  | cons front rest => rfl

/-- With enough memory this is `add_index` of the database. -/
theorem addIndex_generous (registry : Registry F) {t : τ}
    (unmapped : registry.indexMap t = false)
    (unregistered : t ∉ registry.database.indexList) :
    addIndex (fun _ => false) t registry =
      match Database.addIndex t registry.database with
      | .ok _ final => .ok ⟨⟩
          { database := final
            indexMap := Function.update registry.indexMap t true }
      | .error fault final =>
          .error fault { registry with database := final } := by
  rw [← bringIn_generous unregistered, addIndex,
    bind_apply_of_ok _ (allocate_granted rfl),
    bind_apply_of_ok _ (get_apply registry)]
  simp only [unmapped, Bool.false_eq_true, if_false]
  cases ran : bringIn (fun _ => false) t registry.database with
  | ok value middle =>
      have onMiddle : onFile (bringIn (fun _ => false) t) registry =
          .ok value { registry with database := middle } := by
        rw [onFile, zoom, ran]
      rw [bind_apply_of_ok _ onMiddle, bind_apply_of_ok _ ran]
      rfl
  | error fault middle =>
      have onMiddle : onFile (bringIn (fun _ => false) t) registry =
          .error fault { registry with database := middle } := by
        rw [onFile, zoom, ran]
      rw [bind_apply_of_error _ onMiddle, bind_apply_of_error _ ran]

end Generous

/-! ## What a failure leaves behind -/

section Failures

variable {refuses}

variable (refuses) in
/-- The loop runs to its end or stops in a round without memory. -/
theorem replaySessions_apply {T : IndexType} {base : Int} (target : Int)
    (bounded : target ≤ int64Max) :
    ∀ (rounds round : Nat) {index : GenericIndex T} {depth : Nat},
      Shape index base depth → index.revision + rounds = target →
        ((∀ later < rounds, refuses (.replay (round + later)) = false) ∧
          ∃ final, replaySessions refuses target round rounds index =
              .ok ⟨⟩ final ∧
            Shape final base (depth + rounds)) ∨
        ∃ stopped < rounds, refuses (.replay (round + stopped)) = true ∧
          (∀ earlier < stopped, refuses (.replay (round + earlier)) = false) ∧
          ∃ left, replaySessions refuses target round rounds index =
              .error .badAlloc left ∧
            Shape left base (depth + stopped)
  | 0, round, index, depth, shape, _ =>
      Or.inl ⟨fun _ beyond => absurd beyond (Nat.not_lt_zero _), index, rfl,
        shape⟩
  | rounds + 1, round, index, depth, shape, distance => by
      push_cast at distance
      have below : index.revision < target := by omega
      have inRange : index.revision < int64Max := by omega
      rw [replaySessions, bind_apply_of_ok _ (get_apply index), if_pos below]
      cases memory : refuses (.replay round) with
      | true =>
          exact Or.inr ⟨0, Nat.succ_pos rounds, memory, nofun, index,
            bind_apply_of_error _ (allocate_refused memory), shape⟩
      | false =>
          rw [bind_apply_of_ok _ (allocate_granted memory),
            bind_apply_of_ok _ (startUndoSession_apply inRange)]
          have rest := replaySessions_apply target bounded rounds (round + 1)
            (shape.start inRange)
            (by change index.revision + 1 + rounds = target; omega)
          rcases rest with
            ⟨granted, final, finished, finalShape⟩ |
            ⟨stopped, inside, refused, before, left, failed, leftShape⟩
          · refine Or.inl ⟨?_, final, finished, ?_⟩
            · intro later inside
              cases later with
              | zero => exact memory
              | succ earlier =>
                  have same : round + (earlier + 1) = round + 1 + earlier := by
                    omega
                  rw [same]
                  exact granted earlier (by omega)
            · rwa [Nat.add_assoc, Nat.add_comm 1 rounds] at finalShape
          · refine Or.inr ⟨stopped + 1, by omega, ?_, ?_, left, failed, ?_⟩
            · have same : round + (stopped + 1) = round + 1 + stopped := by
                omega
              rw [same]
              exact refused
            · intro earlier inside
              cases earlier with
              | zero => exact memory
              | succ earlier =>
                  have same : round + (earlier + 1) = round + 1 + earlier := by
                    omega
                  rw [same]
                  exact before earlier (by omega)
            · rwa [Nat.add_assoc, Nat.add_comm 1 stopped] at leftShape

variable (refuses) in
theorem adoptRange_apply {T : IndexType} {base : Int} {depth : Nat}
    (nonneg : 0 ≤ base) (bounded : base + depth ≤ int64Max) :
    ((∀ round < depth, refuses (.replay round) = false) ∧
      ∃ final, adoptRange refuses (base, base + depth) (GenericIndex.empty T) =
          .ok ⟨⟩ final ∧
        Shape final base depth) ∨
    ∃ stopped < depth, refuses (.replay stopped) = true ∧
      (∀ earlier < stopped, refuses (.replay earlier) = false) ∧
      ∃ left, adoptRange refuses (base, base + depth) (GenericIndex.empty T) =
          .error .badAlloc left ∧
        Shape left base stopped := by
  have sameBase : ((UInt64.ofInt base).toNat : Int) = base :=
    toNat_ofInt nonneg (by omega)
  have noStack : (GenericIndex.empty T).stack = [] := rfl
  have inRange : ((UInt64.ofInt base).toNat : Int) ≤ int64Max := by omega
  have accepted := setRevision_apply_nil noStack inRange
  have shape := Shape.setRevision noStack inRange
  rw [sameBase] at accepted shape
  have rounds : (base + depth - base).toNat = depth := by omega
  have loop := replaySessions_apply refuses (base + depth) bounded depth 0 shape
    rfl
  simp only [Nat.zero_add] at loop
  rw [adoptRange, bind_apply_of_ok _ accepted, bind_apply_of_ok _ (get_apply _)]
  simp only [rounds]
  exact loop

variable {database : Database F} {base : Int} {depth : Nat} {t front : τ}
  {rest : List τ}

variable (refuses) in
/-- The new index has the range of the first one, or a part of it. -/
theorem reconcile_new (writable : database.readOnly = false)
    (frontShape : database.HasShape front base depth)
    (isNew : database.segment t = some (GenericIndex.empty (F.indexType t))) :
    ((∀ round < depth, refuses (.replay round) = false) ∧
      ∃ final, reconcile refuses t front true database =
          .ok ⟨⟩ (database.setIndex t final) ∧
        Shape final base depth) ∨
    ∃ stopped < depth, refuses (.replay stopped) = true ∧
      (∀ earlier < stopped, refuses (.replay earlier) = false) ∧
      ∃ left, reconcile refuses t front true database =
          .error .badAlloc (database.setIndex t left) ∧
        Shape left base stopped := by
  have newRange : database.revisionRange t = some (0, 0) := by
    rw [revisionRange, isNew]
    rfl
  by_cases same : ((0 : Int), (0 : Int)) = (base, base + (depth : Int))
  · have flat : base = 0 ∧ depth = 0 := by
      simp only [Prod.mk.injEq] at same
      omega
    obtain ⟨rfl, rfl⟩ := flat
    refine Or.inl ⟨fun _ beyond => absurd beyond (Nat.not_lt_zero _),
      GenericIndex.empty (F.indexType t), ?_, Shape.empty _⟩
    rw [setIndex_self isNew, reconcile, bind_apply_of_ok _ (get_apply database)]
    simp only [frontShape.range, newRange, same, ne_eq, not_true_eq_false,
      if_false]
    rfl
  · have adopts : reconcile refuses t front true database =
        onIndex t (adoptRange refuses (base, base + (depth : Int)))
          database := by
      rw [reconcile, bind_apply_of_ok _ (get_apply database)]
      simp only [frontShape.range, newRange, ne_eq, same, not_false_eq_true,
        if_true, writable, Bool.true_eq_false, Bool.false_eq_true, if_false]
    obtain ⟨_, _, isFrontShape⟩ := frontShape
    rw [adopts, onIndex, isNew]
    rcases adoptRange_apply refuses (T := F.indexType t) isFrontShape.nonneg
        isFrontShape.bounded with
      ⟨granted, final, adopted, shape⟩ |
      ⟨stopped, inside, refused, before, left, failed, shape⟩
    · exact Or.inl ⟨granted, final, by simp only [adopted], shape⟩
    · exact Or.inr ⟨stopped, inside, refused, before, left,
        by simp only [failed], shape⟩

/-- The new index is in the segment, with the range or a part of it. -/
theorem bringIn_new (isList : database.indexList = front :: rest)
    (writable : database.readOnly = false)
    (frontShape : database.HasShape front base depth)
    (absent : database.segment t = none)
    (unregistered : t ∉ database.indexList)
    (construct : refuses .construct = false) :
    ((∀ round < depth, refuses (.replay round) = false) ∧
      ∃ final, bringIn refuses t database =
          .ok ⟨⟩ (database.setIndex t final) ∧
        Shape final base depth) ∨
    ∃ stopped < depth, refuses (.replay stopped) = true ∧
      (∀ earlier < stopped, refuses (.replay earlier) = false) ∧
      ∃ left, bringIn refuses t database =
          .error .badAlloc (database.setIndex t left) ∧
        Shape left base stopped := by
  have different : front ≠ t := by
    intro equal
    apply unregistered
    rw [isList, equal]
    exact List.mem_cons_self
  have constructs : findOrConstruct refuses t database =
      .ok true (database.setIndex t (GenericIndex.empty (F.indexType t))) := by
    rw [findOrConstruct, bind_apply_of_ok _ (get_apply database)]
    simp only [absent, writable, Bool.false_eq_true, if_false]
    exact bind_apply_of_ok _ (allocate_granted construct)
  have brings : bringIn refuses t database = reconcile refuses t front true
      (database.setIndex t (GenericIndex.empty (F.indexType t))) := by
    rw [bringIn, bind_apply_of_ok _ (get_apply database),
      bind_apply_of_ok _ constructs, isList]
  obtain ⟨frontIndex, frontFound, isFrontShape⟩ := frontShape
  have stillWritable : (database.setIndex t
      (GenericIndex.empty (F.indexType t))).readOnly = false := writable
  have outcome := reconcile_new refuses stillWritable
    ⟨frontIndex, by rw [setIndex_segment_ne different, frontFound],
      isFrontShape⟩
    (setIndex_segment_self t _)
  have again : ∀ final, (database.setIndex t
      (GenericIndex.empty (F.indexType t))).setIndex t final =
        database.setIndex t final := by
    intro final
    simp only [setIndex, Function.update_idem]
  simp only [again] at outcome
  rw [brings]
  exact outcome

/-- A call that throws has left nothing, an index with a part of the range, a
complete index, or a complete index that is in `_index_map`. -/
inductive LeftBehind (refuses : AddSite → Bool) (t : τ) (base : Int)
    (depth : Nat) (database : Database F) : Registry F → Prop where
  | nothing (early : refuses .names = true ∨ refuses .construct = true) :
      LeftBehind refuses t base depth database (Registry.of database)
  | shorter (names : refuses .names = false)
      (construct : refuses .construct = false) (stopped : Nat)
      (inside : stopped < depth) (refused : refuses (.replay stopped) = true)
      (before : ∀ earlier < stopped, refuses (.replay earlier) = false)
      (left : GenericIndex (F.indexType t)) (shape : Shape left base stopped) :
      LeftBehind refuses t base depth database
        { database := database.setIndex t left
          indexMap := (Registry.of database).indexMap }
  | complete (names : refuses .names = false)
      (construct : refuses .construct = false)
      (granted : ∀ round < depth, refuses (.replay round) = false)
      (refused : refuses .resize = true ∨ refuses .newIndex = true)
      (left : GenericIndex (F.indexType t)) (shape : Shape left base depth) :
      LeftBehind refuses t base depth database
        { database := database.setIndex t left
          indexMap := (Registry.of database).indexMap }
  | mapped (names : refuses .names = false)
      (construct : refuses .construct = false)
      (granted : ∀ round < depth, refuses (.replay round) = false)
      (resize : refuses .resize = false)
      (newIndex : refuses .newIndex = false)
      (left : GenericIndex (F.indexType t)) (shape : Shape left base depth) :
      LeftBehind refuses t base depth database
        { database := database.setIndex t left
          indexMap := Function.update (Registry.of database).indexMap t true }

/-- What `add_index` of a new type leaves behind when it throws. -/
theorem addIndex_leftBehind {fault : Fault} {failed : Registry F}
    (isList : database.indexList = front :: rest)
    (writable : database.readOnly = false)
    (frontShape : database.HasShape front base depth)
    (absent : database.segment t = none)
    (unregistered : t ∉ database.indexList)
    (throws : addIndex refuses t (Registry.of database) =
      .error fault failed) :
    LeftBehind refuses t base depth database failed := by
  have unmapped : (Registry.of database).indexMap t = false :=
    decide_eq_false unregistered
  cases names : refuses .names with
  | true =>
      have early : addIndex refuses t (Registry.of database) =
          .error .badAlloc (Registry.of database) :=
        bind_apply_of_error _ (allocate_refused names)
      rw [early] at throws
      cases throws
      exact .nothing (Or.inl names)
  | false =>
      rw [addIndex, bind_apply_of_ok _ (allocate_granted names),
        bind_apply_of_ok _ (get_apply _)] at throws
      simp only [unmapped, Bool.false_eq_true, if_false] at throws
      cases construct : refuses .construct with
      | true =>
          have constructs : findOrConstruct refuses t database =
              .error .badAlloc database := by
            rw [findOrConstruct, bind_apply_of_ok _ (get_apply database)]
            simp only [absent, writable, Bool.false_eq_true, if_false]
            exact bind_apply_of_error _ (allocate_refused construct)
          have brings : onFile (bringIn refuses t) (Registry.of database) =
              .error .badAlloc (Registry.of database) := by
            have inFile : bringIn refuses t database =
                .error .badAlloc database := by
              rw [bringIn, bind_apply_of_ok _ (get_apply database),
                bind_apply_of_error _ constructs]
            rw [onFile, zoom]
            simp only [Registry.of, inFile]
          rw [bind_apply_of_error _ brings] at throws
          cases throws
          exact .nothing (Or.inr construct)
      | false =>
          have outcome := bringIn_new isList writable frontShape absent
            unregistered construct
          rcases outcome with
            ⟨granted, final, brought, shape⟩ |
            ⟨stopped, inside, refused, before, left, stops, shape⟩
          · have brings : onFile (bringIn refuses t) (Registry.of database) =
                .ok ⟨⟩ { Registry.of database with
                  database := database.setIndex t final } := by
              rw [onFile, zoom]
              simp only [Registry.of, brought]
            rw [bind_apply_of_ok _ brings] at throws
            cases resize : refuses .resize with
            | true =>
                rw [bind_apply_of_error _ (allocate_refused resize)] at throws
                cases throws
                exact .complete names construct granted (Or.inl resize) final shape
            | false =>
            rw [bind_apply_of_ok _ (allocate_granted resize)] at throws
            cases newIndex : refuses .newIndex with
            | true =>
                rw [bind_apply_of_error _ (allocate_refused newIndex)] at throws
                cases throws
                exact .complete names construct granted (Or.inr newIndex) final
                  shape
            | false =>
            rw [bind_apply_of_ok _ (allocate_granted newIndex),
              bind_apply_of_ok _ (get_apply _),
              bind_apply_of_ok _ (set_apply _ _)] at throws
            cases pushBack : refuses .pushBack with
            | true =>
                rw [bind_apply_of_error _ (allocate_refused pushBack)] at throws
                cases throws
                exact .mapped names construct granted resize newIndex final
                  shape
            | false =>
                rw [bind_apply_of_ok _ (allocate_granted pushBack)] at throws
                cases throws
          · have brings : onFile (bringIn refuses t) (Registry.of database) =
                .error .badAlloc { Registry.of database with
                  database := database.setIndex t left } := by
              rw [onFile, zoom]
              simp only [Registry.of, stops]
            rw [bind_apply_of_error _ brings] at throws
            cases throws
            exact .shorter names construct stopped inside refused before left
              shape

/-- Only the new type can have another index or another entry. -/
theorem LeftBehind.unchanged {failed : Registry F}
    (behind : LeftBehind refuses t base depth database failed) :
    failed.database.indexList = database.indexList ∧
      ∀ other, other ≠ t →
        failed.database.segment other = database.segment other ∧
        failed.indexMap other = (Registry.of database).indexMap other := by
  cases behind with
  | nothing early => exact ⟨rfl, fun _ _ => ⟨rfl, rfl⟩⟩
  | shorter names construct stopped inside refused before left shape =>
      exact ⟨rfl, fun other different =>
        ⟨setIndex_segment_ne different left, rfl⟩⟩
  | complete names construct granted refused left shape =>
      exact ⟨rfl, fun other different =>
        ⟨setIndex_segment_ne different left, rfl⟩⟩
  | mapped names construct granted resize newIndex left shape =>
      exact ⟨rfl, fun other different =>
        ⟨setIndex_segment_ne different left,
          Function.update_of_ne different _ _⟩⟩

/-- The database that is left is as sturdy as before. -/
theorem LeftBehind.sturdy {failed : Registry F}
    (behind : LeftBehind refuses t base depth database failed)
    (isList : database.indexList = front :: rest)
    (sturdy : Sturdy none (fun _ => False) database) :
    Sturdy (some front) (fun _ => False) failed.database := by
  have initially : Sturdy (some front) (fun _ => False) database :=
    { sturdy with
      first := fun first isFirst => by
        cases isFirst
        rw [isList]
        rfl }
  have withIndex : ∀ {left : GenericIndex (F.indexType t)} {made : Nat},
      Shape left base made →
        Sturdy (some front) (fun _ => False) (database.setIndex t left) :=
    fun shape => initially.withIndex not_false ⟨base, _, shape⟩
  cases behind with
  | nothing early => exact initially
  | shorter names construct stopped inside refused before left shape =>
      exact withIndex shape
  | complete names construct granted refused left shape => exact withIndex shape
  | mapped names construct granted resize newIndex left shape =>
      exact withIndex shape

end Failures

/-! ## The next call -/

section Retries

/-- With enough memory the call registers the type, with the range of the first
index. -/
def Registers (t front : τ) (registry : Registry F) : Prop :=
  ∃ final, addIndex (fun _ => false) t registry = .ok ⟨⟩ final ∧
    final.database.indexList = registry.database.indexList ++ [t] ∧
    final.database.revisionRange t = final.database.revisionRange front

/-- Memory has run out before the index is constructed; or in the loop, or
behind it and before the entry of `_index_map`, and the range at the retry is
the one that the loop had reached. -/
def Retriable (refuses : AddSite → Bool) (base : Int) (depth : Nat)
    (range : Option (Int × Int)) : Prop :=
  refuses .names = true ∨ refuses .construct = true ∨
    ∃ rounds : Nat,
      (∀ earlier < rounds, refuses (.replay earlier) = false) ∧
      (rounds < depth ∧ refuses (.replay rounds) = true ∨
        rounds = depth ∧
          (refuses .resize = true ∨ refuses .newIndex = true)) ∧
      range = some (base, base + (rounds : Int))

variable {registry : Registry F} {base base' : Int} {depth depth' : Nat}
  {t front : τ} {rest : List τ}

/-- The database registers the type, and so does the registry. -/
theorem registers_of_registered {final : Database F}
    (isList : registry.database.indexList = front :: rest)
    (frontShape : registry.database.HasShape front base depth)
    (unmapped : registry.indexMap t = false)
    (unregistered : t ∉ registry.database.indexList)
    (added : Database.addIndex t registry.database = .ok ⟨⟩ final)
    (registered : Registered t base depth registry.database final) :
    Registers t front registry := by
  have different : front ≠ t := by
    intro equal
    apply unregistered
    rw [isList, equal]
    exact List.mem_cons_self
  have finalFront : final.HasShape front base depth := by
    rw [HasShape, registered.others front different]
    exact frontShape
  refine ⟨{ database := final
            indexMap := Function.update registry.indexMap t true }, ?_,
    registered.indexList, ?_⟩
  · rw [addIndex_generous registry unmapped unregistered, added]
  · rw [registered.shape.range, finalFront.range]

theorem not_registers_of_error {fault : Fault} {final : Registry F}
    (throws : addIndex (fun _ => false) t registry = .error fault final) :
    ¬ Registers t front registry := by
  intro registers
  obtain ⟨_, succeeds, _⟩ := registers
  rw [throws] at succeeds
  cases succeeds

/-- An entry of `_index_map` ends every later call. -/
theorem addIndex_mapped (mapped : registry.indexMap t = true) :
    addIndex (fun _ => false) t registry =
      .error (.logicError (F.typeName t ++ "::type_id is already in use"))
        registry := by
  rw [addIndex, bind_apply_of_ok _ (allocate_granted rfl),
    bind_apply_of_ok _ (get_apply registry)]
  simp only [mapped, if_true]
  rfl

/-- A type that is not in the segment is registered. -/
theorem registers_new (isList : registry.database.indexList = front :: rest)
    (writable : registry.database.readOnly = false)
    (frontShape : registry.database.HasShape front base depth)
    (absent : registry.database.segment t = none)
    (unmapped : registry.indexMap t = false)
    (unregistered : t ∉ registry.database.indexList) :
    Registers t front registry := by
  obtain ⟨final, added, registered⟩ :=
    addIndex_new isList writable frontShape absent unregistered
  exact registers_of_registered isList frontShape unmapped unregistered added
    registered

/-- A type that is in the segment is registered when the ranges agree. -/
theorem registers_stored_iff {made : Nat}
    (isList : registry.database.indexList = front :: rest)
    (frontShape : registry.database.HasShape front base' depth)
    (shape : registry.database.HasShape t base made)
    (unmapped : registry.indexMap t = false)
    (unregistered : t ∉ registry.database.indexList) :
    Registers t front registry ↔
      registry.database.revisionRange front =
        some (base, base + (made : Int)) := by
  rw [frontShape.range, Option.some.injEq]
  by_cases same : (base', base' + (depth : Int)) = (base, base + (made : Int))
  · apply iff_of_true
    · rw [Prod.mk.injEq] at same
      have sameDepth : depth = made := by omega
      rw [same.1, sameDepth] at frontShape
      obtain ⟨final, added, registered⟩ :=
        addIndex_stored_same isList frontShape shape unregistered
      exact registers_of_registered isList frontShape unmapped unregistered
        added registered
    · exact same
  · apply iff_of_false
    · obtain ⟨message, throws⟩ := addIndex_stored_different isList frontShape
        shape (Ne.symm same) unregistered
      have refused := addIndex_generous registry unmapped unregistered
      rw [throws] at refused
      exact not_registers_of_error refused
    · exact same

/-- What the loop has reached decides. -/
theorem retriable_iff {refuses : AddSite → Bool} {made : Nat}
    {range : Option (Int × Int)} (names : refuses .names = false)
    (construct : refuses .construct = false)
    (before : ∀ earlier < made, refuses (.replay earlier) = false)
    (failed : made < depth ∧ refuses (.replay made) = true ∨
      made = depth ∧ (refuses .resize = true ∨ refuses .newIndex = true)) :
    Retriable refuses base depth range ↔
      range = some (base, base + (made : Int)) := by
  constructor
  · rintro (early | early | ⟨rounds, granted, stopped, isRange⟩)
    · rw [names] at early
      cases early
    · rw [construct] at early
      cases early
    · have same : rounds = made := by
        rcases Nat.lt_trichotomy rounds made with less | same | more
        · rcases stopped with ⟨_, refused⟩ | ⟨isDepth, _⟩
          · rw [before rounds less] at refused
            cases refused
          · omega
        · exact same
        · rcases failed with ⟨_, refused⟩ | ⟨isDepth, _⟩
          · rw [granted made more] at refused
            cases refused
          · omega
      rw [isRange, same]
  · exact fun isRange => Or.inr (Or.inr ⟨made, before, failed, isRange⟩)

/-- After the later calls, a call succeeds exactly on what these failures have
left. -/
theorem LeftBehind.registers_iff {refuses : AddSite → Bool}
    {database later : Database F} {failed : Registry F}
    (behind : LeftBehind refuses t base depth database failed)
    (absent : database.segment t = none)
    (wasUnregistered : t ∉ database.indexList)
    (isList : later.indexList = front :: rest)
    (writable : later.readOnly = false)
    (frontShape : later.HasShape front base' depth')
    (unregistered : t ∉ later.indexList)
    (untouched : later.segment t = failed.database.segment t) :
    Registers t front (failed.after later) ↔
      Retriable refuses base depth (later.revisionRange front) := by
  have unmapped : (decide (t ∈ later.indexList) ||
      (Registry.of database).indexMap t) = false := by
    simp [Registry.of, unregistered, wasUnregistered]
  cases behind with
  | nothing early =>
      apply iff_of_true
      · exact registers_new isList writable frontShape
          (untouched.trans absent) unmapped unregistered
      · rcases early with names | construct
        · exact Or.inl names
        · exact Or.inr (Or.inl construct)
  | shorter names construct stopped inside refused before left shape =>
      rw [setIndex_segment_self] at untouched
      rw [retriable_iff names construct before (Or.inl ⟨inside, refused⟩)]
      exact registers_stored_iff isList frontShape ⟨left, untouched, shape⟩
        unmapped unregistered
  | complete names construct granted refused left shape =>
      rw [setIndex_segment_self] at untouched
      rw [retriable_iff names construct granted (Or.inr ⟨rfl, refused⟩)]
      exact registers_stored_iff isList frontShape ⟨left, untouched, shape⟩
        unmapped unregistered
  | mapped names construct granted resize newIndex left shape =>
      apply iff_of_false
      · apply not_registers_of_error (addIndex_mapped _)
        simp [Registry.after]
      · rintro (early | early | ⟨rounds, _, ⟨inside, refused⟩ | ⟨_, early⟩, _⟩)
        · rw [names] at early
          cases early
        · rw [construct] at early
          cases early
        · rw [granted rounds inside] at refused
          cases refused
        · rw [resize, newIndex] at early
          simp at early

end Retries

end Limited

/-- In every reachable client with a registered index, an `add_index` of a new
type that throws leaves the registered indices as they were.  After any later
calls that do not add the type, a call with enough memory registers it with the
range of the first index exactly when the call that threw had not constructed
the index; or when it had not yet written the entry of `_index_map` and the
first index has the range that the loop had reached. -/
theorem failed_addIndex_retry_iff {ndebug : Bool} {client : Client F}
    {front t : τ} {rest : List τ} {refuses : AddSite → Bool} {fault : Fault}
    {failed : Registry F} (reachable : client.Reachable ndebug)
    (isList : client.database.indexList = front :: rest)
    (isNew : client.database.segment t = none)
    (throws : Limited.addIndex refuses t (Registry.of client.database) =
      .error fault failed) :
    (failed.database.indexList = client.database.indexList ∧
      ∀ other ∈ client.database.indexList,
        failed.database.segment other = client.database.segment other ∧
        failed.indexMap other = true) ∧
    ∀ (calls : List (DatabaseCall F)) (later : Client F),
      (∀ call ∈ calls, Client.Avoids (fun other => other = t) call) →
      Runs.run (DatabaseCall.step ndebug)
        { client with database := failed.database } calls = some later →
      (Limited.Registers t front (failed.after later.database) ↔
        Limited.Retriable refuses
          (client.database.index front).undoStackRevisionRange.1
          (client.database.index front).stack.length
          (later.database.revisionRange front)) := by
  have sturdy := reachable.sturdy
  have frontMember : front ∈ client.database.indexList := by
    rw [isList]
    exact List.mem_cons_self
  have unregistered : t ∉ client.database.indexList := fun member =>
    sturdy.stored t member isNew
  obtain ⟨base, depth, frontIndex, frontFound, frontShape⟩ :=
    sturdy.hasShape frontMember
  have behind := Limited.addIndex_leftBehind isList sturdy.writable
    ⟨frontIndex, frontFound, frontShape⟩ isNew unregistered throws
  obtain ⟨sameList, others⟩ := behind.unchanged
  constructor
  · refine ⟨sameList, ?_⟩
    intro other member
    have different : other ≠ t := fun equal => unregistered (equal ▸ member)
    obtain ⟨sameIndex, sameEntry⟩ := others other different
    exact ⟨sameIndex, sameEntry.trans (decide_eq_true member)⟩
  · intro calls later avoids reached
    have isBase : (client.database.index front).undoStackRevisionRange.1 =
        base := by
      rw [Database.index, frontFound, Option.getD_some, frontShape.range]
    have isDepth : (client.database.index front).stack.length = depth := by
      rw [Database.index, frontFound, Option.getD_some, frontShape.length]
    have initially := behind.sturdy isList sturdy
    have laterSturdy := Client.sturdy_run initially
      (fun call _ => Client.avoids_none call) reached
    have isApart : Client.Apart (fun other => other = t)
        { client with database := failed.database } :=
      { sessions := by
          rw [sameList]
          exact reachable.apart.sessions
        unregistered := by
          rintro other rfl
          rw [sameList]
          exact unregistered }
    obtain ⟨laterApart, alone⟩ := Client.apart_run isApart avoids reached
    have head := laterSturdy.first front rfl
    obtain ⟨laterRest, laterList⟩ := List.head?_eq_some_iff.mp head
    obtain ⟨laterBase, laterDepth, laterShape⟩ :=
      laterSturdy.hasShape (List.mem_of_mem_head? head)
    rw [isBase, isDepth]
    exact behind.registers_iff isNew unregistered laterList
      laterSturdy.writable laterShape (laterApart.unregistered t rfl)
      (alone.untouched t rfl (isApart.unregistered t rfl))

/-- One undo state; there is no memory for `_index_map`.  A session is started
and undone, and then the second call succeeds. -/
theorem failed_addIndex_retry_iff_resize :
    ∃ client : Client eosDbTables, client.Reachable false ∧
      (client.database.index .tableId).stack.length = 1 ∧
      ∃ failed later,
        Limited.addIndex (fun site => decide (site = .resize)) .keyValue
          (Registry.of client.database) = .error .badAlloc failed ∧
        Runs.run (DatabaseCall.step false)
          { client with database := failed.database }
          [.startUndoSession, .undo] = some later ∧
        Limited.Registers .keyValue .tableId
          (failed.after later.database) := by
  obtain ⟨client, reachable, test⟩ := Client.reachable_of_any false
    [.addIndex .tableId, .startUndoSession]
    (fun client : Client eosDbTables =>
      decide (client.database.indexList = [.tableId] ∧
        (client.database.index .tableId).stack.length = 1 ∧
        (client.database.index .tableId).undoStackRevisionRange = (0, 1)) &&
      (client.database.segment .keyValue).isNone &&
      match Limited.addIndex (fun site => decide (site = .resize)) .keyValue
        (Registry.of client.database) with
      | .ok _ _ => false
      | .error fault failed => decide (fault = .badAlloc) &&
          (Runs.run (DatabaseCall.step false)
            { client with database := failed.database }
            [.startUndoSession, .undo]).any fun later =>
              decide (later.database.revisionRange .tableId = some (0, 1)))
    (by decide +kernel)
  rw [Bool.and_eq_true, Bool.and_eq_true, decide_eq_true_iff,
    Option.isNone_iff_eq_none] at test
  obtain ⟨⟨⟨isList, depth, range⟩, isNew⟩, fails⟩ := test
  refine ⟨client, reachable, depth, ?_⟩
  split at fails
  · cases fails
  · rename_i fault failed throws
    rw [Bool.and_eq_true, decide_eq_true_iff] at fails
    obtain ⟨isBadAlloc, ran⟩ := fails
    rw [isBadAlloc] at throws
    obtain ⟨later, reached, isRange⟩ := (Option.any_eq_true _ _).mp ran
    refine ⟨failed, later, throws, reached, ?_⟩
    apply ((failed_addIndex_retry_iff reachable isList isNew throws).2 _ later
      (by simp [Client.Avoids]) reached).mpr
    rw [of_decide_eq_true isRange, depth, range]
    exact Or.inr (Or.inr ⟨1, fun _ _ => rfl, Or.inr ⟨rfl, Or.inl rfl⟩, rfl⟩)

/-- One undo state; there is no memory for it in the new index, and the second
call finds an index of a corrupted database. -/
theorem failed_addIndex_replay_refused :
    ∃ client : Client eosDbTables, client.Reachable false ∧
      client.database.indexList = [.tableId] ∧
      client.database.segment .keyValue = none ∧
      ∃ failed, Limited.addIndex (fun site => decide (site = .replay 0))
          .keyValue (Registry.of client.database) = .error .badAlloc failed ∧
        ¬ Limited.Registers .keyValue .tableId failed := by
  obtain ⟨client, reachable, test⟩ := Client.reachable_of_any false
    [.addIndex .tableId, .startUndoSession]
    (fun client : Client eosDbTables =>
      decide (client.database.indexList = [.tableId]) &&
      (client.database.segment .keyValue).isNone &&
      match Limited.addIndex (fun site => decide (site = .replay 0)) .keyValue
        (Registry.of client.database) with
      | .ok _ _ => false
      | .error fault failed => decide (fault = .badAlloc) &&
          match Limited.addIndex (fun _ => false) .keyValue failed with
          | .ok _ _ => false
          | .error _ _ => true)
    (by decide +kernel)
  rw [Bool.and_eq_true, Bool.and_eq_true, decide_eq_true_iff,
    Option.isNone_iff_eq_none] at test
  obtain ⟨⟨isList, isNew⟩, fails⟩ := test
  refine ⟨client, reachable, isList, isNew, ?_⟩
  split at fails
  · cases fails
  · rename_i fault failed throws
    rw [Bool.and_eq_true, decide_eq_true_iff] at fails
    obtain ⟨isBadAlloc, failsAgain⟩ := fails
    rw [isBadAlloc] at throws
    refine ⟨failed, throws, ?_⟩
    split at failsAgain
    · cases failsAgain
    · rename_i again
      exact Limited.not_registers_of_error again

end StateDatabase
