import Mathlib
import StateDatabase.RevisionRange
import StateDatabase.ContractTables

/-!
# Registering indices

`add_index` gives a new index the range of the first registered one, and
refuses a stored index with another range.  So the first registration decides:
after a database is opened again, the order of registration does not matter
exactly when the first type is a stored one, or the range of the stored
indices is that of a new index.
-/

namespace StateDatabase

open Programs GenericIndex

/-! ## Adopting a range -/

section Adopting

variable {T : IndexType} {index : GenericIndex T} {base : Int} {depth : Nat}

theorem toNat_ofInt {value : Int} (nonneg : 0 ≤ value)
    (bounded : value ≤ int64Max) :
    ((UInt64.ofInt value).toNat : Int) = value := by
  obtain ⟨natural, rfl⟩ := Int.eq_ofNat_of_zero_le nonneg
  unfold int64Max at bounded
  rw [UInt64.ofInt]
  simp only [UInt64.toNat_ofNat']
  omega

/-- The loop ends at its target with one more undo state for each round. -/
theorem replaySessions_apply (target : Int) (bounded : target ≤ int64Max) :
    ∀ (rounds : Nat) {index : GenericIndex T} {depth : Nat},
      Shape index base depth → index.revision + rounds = target →
        ∃ final, Database.replaySessions target rounds index = .ok ⟨⟩ final ∧
          Shape final base (depth + rounds)
  | 0, index, _, shape, _ => ⟨index, rfl, shape⟩
  | rounds + 1, index, depth, shape, distance => by
      push_cast at distance
      have below : index.revision < target := by omega
      have inRange : index.revision < int64Max := by omega
      obtain ⟨final, finished, finalShape⟩ :=
        replaySessions_apply target bounded rounds (shape.start inRange)
          (by change index.revision + 1 + rounds = target; omega)
      refine ⟨final, ?_, ?_⟩
      · rw [Database.replaySessions, bind_apply_of_ok _ (get_apply index),
          if_pos below, bind_apply_of_ok _ (startUndoSession_apply inRange)]
        exact finished
      · rwa [Nat.add_assoc, Nat.add_comm 1 rounds] at finalShape

/-- A new index takes over any range that an index can have. -/
theorem adoptRange_apply (nonneg : 0 ≤ base)
    (bounded : base + depth ≤ int64Max) :
    ∃ final,
      Database.adoptRange (base, base + depth) (GenericIndex.empty T) =
        .ok ⟨⟩ final ∧
      Shape final base depth := by
  have sameBase : ((UInt64.ofInt base).toNat : Int) = base :=
    toNat_ofInt nonneg (by omega)
  have noStack : (GenericIndex.empty T).stack = [] := rfl
  have inRange : ((UInt64.ofInt base).toNat : Int) ≤ int64Max := by omega
  have accepted := setRevision_apply_nil noStack inRange
  have shape := Shape.setRevision noStack inRange
  rw [sameBase] at accepted shape
  obtain ⟨final, finished, finalShape⟩ :=
    replaySessions_apply (base + depth) bounded depth shape rfl
  refine ⟨final, ?_, ?_⟩
  · rw [Database.adoptRange, bind_apply_of_ok _ accepted,
      bind_apply_of_ok _ (get_apply _)]
    have rounds : (base + depth - base).toNat = depth := by omega
    simp only [rounds]
    exact finished
  · rwa [Nat.zero_add] at finalShape

end Adopting

/-! ## One registration -/

section Registering

variable {τ : Type} [DecidableEq τ] {F : IndexFamily τ}
  {database : Database F} {base base' : Int} {depth depth' : Nat} {t front : τ}

namespace Database

omit [DecidableEq τ] in
theorem register_apply (t : τ) (database : Database F) :
    register t database =
      .ok ⟨⟩ { database with indexList := database.indexList ++ [t] } := rfl

theorem findOrConstruct_stored {index : GenericIndex (F.indexType t)}
    (stored : database.segment t = some index) :
    findOrConstruct t database = .ok false database := by
  unfold findOrConstruct
  rw [bind_apply_of_ok _ (get_apply database)]
  simp only [stored]
  rfl

theorem findOrConstruct_new (absent : database.segment t = none)
    (writable : database.readOnly = false) :
    findOrConstruct t database =
      .ok true (database.setIndex t (GenericIndex.empty (F.indexType t))) := by
  unfold findOrConstruct
  rw [bind_apply_of_ok _ (get_apply database)]
  simp only [absent, writable, Bool.false_eq_true, if_false]
  rfl

theorem reconcile_same {firstTimeAdding : Bool}
    (frontShape : database.HasShape front base depth)
    (shape : database.HasShape t base depth) :
    reconcile t front firstTimeAdding database = .ok ⟨⟩ database := by
  unfold reconcile
  rw [bind_apply_of_ok _ (get_apply database)]
  simp only [frontShape.range, shape.range, ne_eq, not_true_eq_false, if_false]
  rfl

/-- A stored index with another range is refused. -/
theorem reconcile_stored
    (frontShape : database.HasShape front base depth)
    (shape : database.HasShape t base' depth')
    (different : (base', base' + (depth' : Int)) ≠ (base, base + (depth : Int))) :
    ∃ message, reconcile t front false database =
      .error (.logicError message) database := by
  refine ⟨inconsistentMessage (F.typeName t) (base', base' + (depth' : Int))
    (base, base + (depth : Int)), ?_⟩
  unfold reconcile
  rw [bind_apply_of_ok _ (get_apply database)]
  simp only [frontShape.range, shape.range, if_pos different, if_true]
  rfl

/-- An index with another range than the first registered one that adopts its
range. -/
theorem reconcile_adopted {final : GenericIndex (F.indexType t)}
    (writable : database.readOnly = false)
    (frontShape : database.HasShape front base depth)
    (isNew : database.segment t = some (GenericIndex.empty (F.indexType t)))
    (different : ((0 : Int), (0 : Int)) ≠ (base, base + (depth : Int)))
    (adopted : adoptRange (base, base + (depth : Int))
      (GenericIndex.empty (F.indexType t)) = .ok ⟨⟩ final) :
    reconcile t front true database =
      .ok ⟨⟩ (database.setIndex t final) := by
  have newRange : database.revisionRange t = some (0, 0) := by
    rw [revisionRange, isNew]
    rfl
  unfold reconcile
  rw [bind_apply_of_ok _ (get_apply database)]
  simp only [frontShape.range, newRange, ne_eq, different, not_false_eq_true,
    if_true, writable, Bool.true_eq_false, Bool.false_eq_true, if_false]
  simp only [onIndex, isNew, adopted]

/-- A new index gets the range of the first registered one. -/
theorem reconcile_new (writable : database.readOnly = false)
    (frontShape : database.HasShape front base depth)
    (isNew : database.segment t = some (GenericIndex.empty (F.indexType t))) :
    ∃ final, reconcile t front true database =
        .ok ⟨⟩ (database.setIndex t final) ∧
      Shape final base depth := by
  have hasFront := frontShape
  obtain ⟨_, _, isFrontShape⟩ := hasFront
  by_cases same : ((0 : Int), (0 : Int)) = (base, base + (depth : Int))
  · have flat : base = 0 ∧ depth = 0 := by
      simp only [Prod.mk.injEq] at same
      omega
    obtain ⟨rfl, rfl⟩ := flat
    refine ⟨GenericIndex.empty (F.indexType t), ?_, Shape.empty _⟩
    rw [setIndex_self isNew]
    exact reconcile_same frontShape ⟨_, isNew, Shape.empty _⟩
  · obtain ⟨final, adopted, shape⟩ :=
      adoptRange_apply (T := F.indexType t) isFrontShape.nonneg
        isFrontShape.bounded
    exact ⟨final,
      reconcile_adopted writable frontShape isNew same adopted, shape⟩

/-- What a successful registration leaves behind. -/
structure Registered (t : τ) (base : Int) (depth : Nat)
    (before after : Database F) : Prop where
  indexList : after.indexList = before.indexList ++ [t]
  readOnly : after.readOnly = before.readOnly
  shape : after.HasShape t base depth
  others : ∀ other, other ≠ t → after.segment other = before.segment other

theorem addIndex_unregistered {outcome : EStateM.Result Fault (Database F) PUnit}
    (unregistered : t ∉ database.indexList)
    (continues : (findOrConstruct t >>= fun firstTimeAdding =>
      match database.indexList with
      | [] => register t
      | front :: _ => do
          reconcile t front firstTimeAdding
          register t) database = outcome) :
    addIndex t database = outcome := by
  unfold addIndex
  rw [bind_apply_of_ok _ (get_apply database)]
  simp only [if_neg unregistered]
  exact continues

/-- The first registered index keeps its range. -/
theorem addIndex_first (noIndices : database.indexList = [])
    (writable : database.readOnly = false) :
    ∃ final, addIndex t database = .ok ⟨⟩ final ∧
      (∀ base depth, database.HasShape t base depth →
        Registered t base depth database final) ∧
      (database.segment t = none → Registered t 0 0 database final) := by
  have unregistered : t ∉ database.indexList := by simp [noIndices]
  cases found : database.segment t with
  | some index =>
      refine ⟨{ database with indexList := database.indexList ++ [t] },
        addIndex_unregistered unregistered ?_, ?_, ?_⟩
      · rw [bind_apply_of_ok _ (findOrConstruct_stored found)]
        simp only [noIndices]
        rw [register_apply, noIndices]
      · intro base depth shape
        exact ⟨rfl, rfl, shape, fun _ _ => rfl⟩
      · intro absent
        cases absent
  | none =>
      refine ⟨{ database.setIndex t (GenericIndex.empty (F.indexType t)) with
          indexList := database.indexList ++ [t] },
        addIndex_unregistered unregistered ?_, ?_, ?_⟩
      · rw [bind_apply_of_ok _ (findOrConstruct_new found writable)]
        simp only [noIndices]
        rw [register_apply]
        simp only [setIndex, noIndices]
      · rintro base depth ⟨index, isIndex, _⟩
        rw [found] at isIndex
        cases isIndex
      · intro _
        exact ⟨rfl, rfl, ⟨_, setIndex_segment_self t _, Shape.empty _⟩,
          fun other different => setIndex_segment_ne different _⟩

/-- A later new index gets the range of the first one. -/
theorem addIndex_new {rest : List τ} (isList : database.indexList = front :: rest)
    (writable : database.readOnly = false)
    (frontShape : database.HasShape front base depth)
    (absent : database.segment t = none)
    (unregistered : t ∉ database.indexList) :
    ∃ final, addIndex t database = .ok ⟨⟩ final ∧
      Registered t base depth database final := by
  have different : front ≠ t := by
    rintro rfl
    exact unregistered (by rw [isList]; exact List.mem_cons_self)
  obtain ⟨frontIndex, frontFound, isFrontShape⟩ := frontShape
  have stillWritable : (database.setIndex t
      (GenericIndex.empty (F.indexType t))).readOnly = false := writable
  obtain ⟨final, reconciled, shape⟩ :=
    reconcile_new (t := t) stillWritable
      ⟨frontIndex, by rw [setIndex_segment_ne different, frontFound],
        isFrontShape⟩
      (setIndex_segment_self t _)
  refine ⟨{ (database.setIndex t (GenericIndex.empty (F.indexType t))).setIndex
      t final with indexList := database.indexList ++ [t] },
    addIndex_unregistered unregistered ?_, ?_⟩
  · rw [bind_apply_of_ok _ (findOrConstruct_new absent writable), isList]
    simp only
    rw [bind_apply_of_ok _ reconciled, register_apply]
    simp only [setIndex, isList]
  · refine ⟨rfl, rfl, ⟨final, setIndex_segment_self t final, shape⟩, ?_⟩
    intro other otherDifferent
    change ((database.setIndex t _).setIndex t final).segment other = _
    rw [setIndex_segment_ne otherDifferent, setIndex_segment_ne otherDifferent]

/-- A later stored index is accepted when it has the range of the first
one. -/
theorem addIndex_stored_same {rest : List τ}
    (isList : database.indexList = front :: rest)
    (frontShape : database.HasShape front base depth)
    (shape : database.HasShape t base depth)
    (unregistered : t ∉ database.indexList) :
    ∃ final, addIndex t database = .ok ⟨⟩ final ∧
      Registered t base depth database final := by
  obtain ⟨index, found, isShape⟩ := shape
  refine ⟨{ database with indexList := database.indexList ++ [t] },
    addIndex_unregistered unregistered ?_,
    ⟨rfl, rfl, ⟨index, found, isShape⟩, fun _ _ => rfl⟩⟩
  rw [bind_apply_of_ok _ (findOrConstruct_stored found), isList]
  simp only
  rw [bind_apply_of_ok _ (reconcile_same frontShape ⟨index, found, isShape⟩)]
  rw [register_apply, isList]

/-- … and refused otherwise. -/
theorem addIndex_stored_different {rest : List τ}
    (isList : database.indexList = front :: rest)
    (frontShape : database.HasShape front base depth)
    (shape : database.HasShape t base' depth')
    (different : (base', base' + (depth' : Int)) ≠ (base, base + (depth : Int)))
    (unregistered : t ∉ database.indexList) :
    ∃ message, addIndex t database = .error (.logicError message) database := by
  obtain ⟨index, found, isShape⟩ := shape
  obtain ⟨message, refused⟩ :=
    reconcile_stored frontShape ⟨index, found, isShape⟩ different
  refine ⟨message, addIndex_unregistered unregistered ?_⟩
  rw [bind_apply_of_ok _ (findOrConstruct_stored found), isList]
  exact bind_apply_of_error _ refused

/-! ## Opening a database again -/

/-- Register the types in this order. -/
def addIndices : List τ → DatabaseM F PUnit
  | [] => pure ⟨⟩
  | t :: rest => do
      addIndex t
      addIndices rest

/-- With one shape everywhere, every registration succeeds. -/
theorem addIndices_agreeing :
    ∀ (order : List τ) (database : Database F),
      database.readOnly = false → database.indexList ≠ [] →
      order.Nodup → (∀ t ∈ order, t ∉ database.indexList) →
      (∀ t ∈ database.indexList, database.HasShape t base depth) →
      (∀ t ∈ order, database.segment t = none ∨
        database.HasShape t base depth) →
        ∃ final, addIndices order database = .ok ⟨⟩ final ∧
          final.indexList = database.indexList ++ order ∧
          ∀ t ∈ final.indexList, final.HasShape t base depth
  | [], database, _, _, _, _, registered, _ =>
      ⟨database, rfl, (List.append_nil _).symm, registered⟩
  | t :: rest, database, writable, nonempty, nodup, fresh, registered,
      candidates => by
      obtain ⟨front, others, isList⟩ := List.exists_cons_of_ne_nil nonempty
      have frontShape := registered front (by simp [isList])
      have unregistered := fresh t List.mem_cons_self
      have added : ∃ next, addIndex t database = .ok ⟨⟩ next ∧
          Registered t base depth database next := by
        rcases candidates t List.mem_cons_self with absent | shape
        · exact addIndex_new isList writable frontShape absent unregistered
        · exact addIndex_stored_same isList frontShape shape unregistered
      obtain ⟨next, success, result⟩ := added
      obtain ⟨notInRest, restNodup⟩ := List.nodup_cons.mp nodup
      have nextShape : ∀ tested, database.HasShape tested base depth →
          next.HasShape tested base depth := by
        intro tested hasShape
        by_cases equal : tested = t
        · exact equal ▸ result.shape
        · rw [HasShape, result.others tested equal]
          exact hasShape
      obtain ⟨final, finished, finalList, finalShapes⟩ :=
        addIndices_agreeing rest next (result.readOnly.trans writable)
          (by simp [result.indexList]) restNodup
          (by
            intro tested member registeredBefore
            rw [result.indexList, List.mem_append,
              List.mem_singleton] at registeredBefore
            rcases registeredBefore with before | equal
            · exact fresh tested (List.mem_cons_of_mem t member) before
            · exact notInRest (equal ▸ member))
          (by
            intro tested member
            rw [result.indexList, List.mem_append, List.mem_singleton] at member
            rcases member with before | equal
            · exact nextShape tested (registered tested before)
            · exact equal ▸ result.shape)
          (by
            intro tested member
            have different : tested ≠ t := fun equal => notInRest (equal ▸ member)
            rcases candidates tested (List.mem_cons_of_mem t member) with
              absent | shape
            · exact Or.inl ((result.others tested different).trans absent)
            · exact Or.inr (nextShape tested shape))
      refine ⟨final, ?_, ?_, finalShapes⟩
      · rw [addIndices, bind_apply_of_ok _ success]
        exact finished
      · rw [finalList, result.indexList, List.append_assoc,
          List.singleton_append]

/-- With another shape in the first index, the first stored index is
refused. -/
theorem addIndices_refused
    (different : (base', base' + (depth' : Int)) ≠ (base, base + (depth : Int))) :
    ∀ (order : List τ) (database : Database F),
      database.readOnly = false → order.Nodup →
      (∀ t ∈ order, t ∉ database.indexList) →
      (∃ front rest, database.indexList = front :: rest ∧
        database.HasShape front base depth) →
      (∀ t ∈ order, database.segment t = none ∨
        database.HasShape t base' depth') →
      (∃ t ∈ order, database.segment t ≠ none) →
        ∃ fault final, addIndices order database = .error fault final
  | [], _, _, _, _, _, _, stored => by simp at stored
  | t :: rest, database, writable, nodup, fresh, registered, candidates,
      stored => by
      obtain ⟨front, others, isList, frontShape⟩ := registered
      have unregistered := fresh t List.mem_cons_self
      obtain ⟨notInRest, restNodup⟩ := List.nodup_cons.mp nodup
      rcases candidates t List.mem_cons_self with absent | shape
      · obtain ⟨next, success, result⟩ :=
          addIndex_new isList writable frontShape absent unregistered
        have differs : ∀ tested ∈ rest, tested ≠ t := fun tested member equal =>
          notInRest (equal ▸ member)
        obtain ⟨fault, final, failed⟩ :=
          addIndices_refused different rest next
            (result.readOnly.trans writable) restNodup
            (by
              intro tested member registeredBefore
              rw [result.indexList, List.mem_append,
                List.mem_singleton] at registeredBefore
              rcases registeredBefore with before | equal
              · exact fresh tested (List.mem_cons_of_mem t member) before
              · exact differs tested member equal)
            (by
              refine ⟨front, others ++ [t], ?_, ?_⟩
              · rw [result.indexList, isList, List.cons_append]
              · have frontDiffers : front ≠ t := by
                  rintro rfl
                  exact unregistered (by simp [isList])
                rw [HasShape, result.others front frontDiffers]
                exact frontShape)
            (by
              intro tested member
              rw [HasShape, result.others tested (differs tested member)]
              exact candidates tested (List.mem_cons_of_mem t member))
            (by
              obtain ⟨tested, member, isStored⟩ := stored
              rcases List.mem_cons.mp member with equal | inRest
              · exact absurd absent (equal ▸ isStored)
              · refine ⟨tested, inRest, ?_⟩
                rwa [result.others tested (differs tested inRest)])
        refine ⟨fault, final, ?_⟩
        rw [addIndices, bind_apply_of_ok _ success]
        exact failed
      · obtain ⟨message, refused⟩ :=
          addIndex_stored_different isList frontShape shape different
            unregistered
        exact ⟨_, _, bind_apply_of_error _ refused⟩

/-- A cleanly closed database that was opened again for writing: every stored
index was left behind by some run of calls, and all have one range. -/
structure Reopened (ndebug : Bool) (range : Int × Int)
    (database : Database F) : Prop where
  writable : database.readOnly = false
  noIndices : database.indexList = []
  left : ∀ t index, database.segment t = some index →
    ∃ calls, Runs.run (IndexCall.step ndebug)
      (GenericIndex.empty (F.indexType t)) calls = some index
  ranges : ∀ t index, database.segment t = some index →
    index.undoStackRevisionRange = range

omit [DecidableEq τ] in
/-- All stored indices have one shape. -/
theorem Reopened.shapes {ndebug : Bool} {range : Int × Int}
    (reopened : Reopened ndebug range database)
    (stored : ∃ t, database.segment t ≠ none) :
    ∃ (base : Int) (depth : Nat), range = (base, base + (depth : Int)) ∧
      ∀ t, database.segment t ≠ none → database.HasShape t base depth := by
  have each : ∀ t, database.segment t ≠ none →
      ∃ base depth, database.HasShape t base depth ∧
        range = (base, base + (depth : Int)) := by
    intro t isStored
    obtain ⟨index, found⟩ := Option.ne_none_iff_exists'.mp isStored
    obtain ⟨calls, reached⟩ := reopened.left t index found
    obtain ⟨base, depth, shape⟩ := shape_run reached
    exact ⟨base, depth, ⟨index, found, shape⟩,
      (reopened.ranges t index found).symm.trans shape.range⟩
  obtain ⟨first, isStored⟩ := stored
  obtain ⟨base, depth, _, isRange⟩ := each first isStored
  refine ⟨base, depth, isRange, ?_⟩
  intro t otherStored
  obtain ⟨base', depth', shape, isRange'⟩ := each t otherStored
  rw [isRange, Prod.mk.injEq] at isRange'
  obtain ⟨rfl, sameEnd⟩ := isRange'
  have sameDepth : depth = depth' := by omega
  exact sameDepth ▸ shape

/-- Registering the stored types and any new ones succeeds with one range for
all exactly when the first type is stored or the stored range is `[0, 0]`. -/
theorem addIndices_ranges_iff {ndebug : Bool} {range : Int × Int}
    {order : List τ} (reopened : Reopened ndebug range database)
    (stored : ∃ t, database.segment t ≠ none) (nodup : order.Nodup)
    (complete : ∀ t, database.segment t ≠ none → t ∈ order) :
    (∃ final, addIndices order database = .ok ⟨⟩ final ∧
      final.indexList = order ∧
      ∀ t ∈ order, final.revisionRange t = some range) ↔
    ((∃ first, order.head? = some first ∧ database.segment first ≠ none) ∨
      range = (0, 0)) := by
  obtain ⟨base, depth, isRange, shapes⟩ := reopened.shapes stored
  obtain ⟨witness, isStored⟩ := stored
  cases order with
  | nil => exact absurd (complete witness isStored) List.not_mem_nil
  | cons first rest =>
      obtain ⟨notInRest, restNodup⟩ := List.nodup_cons.mp nodup
      obtain ⟨next, success, ofStored, ofNew⟩ :=
        addIndex_first (t := first) reopened.noIndices reopened.writable
      have agreeing : Registered first base depth database next →
          ∃ final, addIndices (first :: rest) database = .ok ⟨⟩ final ∧
            final.indexList = first :: rest ∧
            ∀ t ∈ first :: rest, final.revisionRange t = some range := by
        intro result
        obtain ⟨final, finished, finalList, finalShapes⟩ :=
          addIndices_agreeing rest next
            (result.readOnly.trans reopened.writable)
            (by simp [result.indexList]) restNodup
            (by
              intro t member registered
              rw [result.indexList, reopened.noIndices, List.nil_append,
                List.mem_singleton] at registered
              exact notInRest (registered ▸ member))
            (by
              intro t registered
              rw [result.indexList, reopened.noIndices, List.nil_append,
                List.mem_singleton] at registered
              exact registered ▸ result.shape)
            (by
              intro t member
              have differs : t ≠ first := fun equal => notInRest (equal ▸ member)
              rw [HasShape, result.others t differs]
              by_cases absent : database.segment t = none
              · exact Or.inl absent
              · exact Or.inr (shapes t absent))
        rw [result.indexList, reopened.noIndices, List.nil_append,
          List.singleton_append] at finalList
        refine ⟨final, ?_, finalList, ?_⟩
        · rw [addIndices, bind_apply_of_ok _ success]
          exact finished
        · intro t member
          rw [isRange]
          exact (finalShapes t (finalList ▸ member)).range
      by_cases firstStored : database.segment first ≠ none
      · refine ⟨fun _ => Or.inl ⟨first, rfl, firstStored⟩, fun _ => ?_⟩
        exact agreeing (ofStored base depth (shapes first firstStored))
      · have result := ofNew (not_not.mp firstStored)
        by_cases flat : range = (0, 0)
        · refine ⟨fun _ => Or.inr flat, fun _ => ?_⟩
          have isFlat : base = 0 ∧ depth = 0 := by
            rw [flat, Prod.mk.injEq] at isRange
            omega
          obtain ⟨rfl, rfl⟩ := isFlat
          exact agreeing result
        · -- the first index is new, so the first stored one is refused
          obtain ⟨fault, final, failed⟩ :=
            addIndices_refused
              (by simpa [isRange] using flat) rest next
              (result.readOnly.trans reopened.writable) restNodup
              (by
                intro t member registered
                rw [result.indexList, reopened.noIndices, List.nil_append,
                  List.mem_singleton] at registered
                exact notInRest (registered ▸ member))
              ⟨first, [], by rw [result.indexList, reopened.noIndices,
                List.nil_append], result.shape⟩
              (by
                intro t member
                have differs : t ≠ first := fun equal =>
                  notInRest (equal ▸ member)
                rw [HasShape, result.others t differs]
                by_cases absent : database.segment t = none
                · exact Or.inl absent
                · exact Or.inr (shapes t absent))
              (by
                have differs : witness ≠ first := fun equal =>
                  firstStored (equal ▸ isStored)
                refine ⟨witness, ?_, ?_⟩
                · exact (List.mem_cons.mp (complete witness isStored)).resolve_left
                    differs
                · rwa [result.others witness differs])
          have refused :
              addIndices (first :: rest) database = .error fault final := by
            rw [addIndices, bind_apply_of_ok _ success]
            exact failed
          constructor
          · rintro ⟨ended, finished, _⟩
            rw [refused] at finished
            cases finished
          · rintro (⟨other, isFirst, otherStored⟩ | isFlat)
            · cases isFirst
              exact absurd otherStored firstStored
            · exact absurd isFlat flat

end Database

end Registering

/-! ## The tables of `eos_db` -/

/-- The index types of `eos_db` with the names of their objects. -/
@[reducible]
def eosDbTables : IndexFamily TableType where
  indexType := indexOf
  typeName
    | .tableId => "table_id_object"
    | .keyValue => "key_value_object"
    | .index .idx64 => "index64_object"
    | .index .idx128 => "index128_object"
    | .index .idx256 => "index256_object"
    | .tableKey => "table_key_object"

/-- The tables in the order in which they are registered. -/
def allTables : List TableType :=
  [.tableId, .keyValue, .index .idx64, .index .idx128, .index .idx256,
    .tableKey]

/-- All tables are registered and empty. -/
def emptyTables : Database eosDbTables :=
  { segment := fun t => some (GenericIndex.empty (indexOf t))
    indexList := allTables
    readOnly := false }

theorem emptyTables_added :
    Database.addIndices allTables (Database.empty eosDbTables) =
      .ok ⟨⟩ emptyTables := by
  obtain ⟨final, added⟩ : ∃ final,
      Database.addIndices allTables (Database.empty eosDbTables) =
        .ok ⟨⟩ final := ⟨_, rfl⟩
  have same : final = emptyTables := by
    cases added
    simp only [emptyTables]
    congr 1
    funext t
    cases t with
    | index kind => cases kind <;> rfl
    | _ => rfl
  rw [added, same]

/-- A closed database with one index, which has one pushed session. -/
def pushedDatabase : Database eosDbTables where
  segment
    | .keyValue => some
        { stack := [UndoState.empty keyValueIndex 1]
          revision := 1
          indices := MultiIndex.empty keyValueIndex }
    | _ => none
  indexList := []
  readOnly := false

theorem pushedDatabase_reopened :
    Database.Reopened true (0, 1) pushedDatabase where
  writable := rfl
  noIndices := rfl
  left := by
    intro t index found
    cases t with
    | keyValue =>
        refine ⟨[.startUndoSession], ?_⟩
        cases found
        rfl
    | _ => cases found
  ranges := by
    intro t index found
    cases t with
    | keyValue =>
        cases found
        rfl
    | _ => cases found

namespace Database

theorem addIndices_ranges_iff_storedFirst :
    ∃ final, addIndices [.keyValue, .tableId] pushedDatabase = .ok ⟨⟩ final ∧
      final.indexList = [.keyValue, .tableId] ∧
      ∀ t ∈ [TableType.keyValue, .tableId],
        final.revisionRange t = some (0, 1) := by
  refine (addIndices_ranges_iff pushedDatabase_reopened ⟨.keyValue, ?_⟩
    (by decide) ?_).mpr (Or.inl ⟨.keyValue, rfl, ?_⟩)
  · exact Option.some_ne_none _
  · intro t stored
    cases t with
    | keyValue => simp
    | _ => exact absurd rfl stored
  · exact Option.some_ne_none _

/-- The same two types in the other order: the stored index is reported as
corrupted. -/
theorem addIndices_newFirst :
    Reopened true (0, 1) pushedDatabase ∧
      ∃ final, addIndices [.tableId, .keyValue] pushedDatabase =
        .error (.logicError
          (inconsistentMessage "key_value_object" (0, 1) (0, 0))) final :=
  ⟨pushedDatabase_reopened, _, rfl⟩

end Database

end StateDatabase
