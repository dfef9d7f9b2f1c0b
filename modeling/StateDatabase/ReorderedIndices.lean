import Mathlib
import StateDatabase.DatabaseSnapshots

/-!
# The order of the registered indices

`_index_list` has the indices in the order in which a program registered them.
Two databases store the same indices and have registered the same of them, each
in an order of its own.  The loops over `_index_list` reach every index once, and
a new index gets the range that all registered ones have.  So no call of a client
can tell the two apart: what is proper on one is proper on the other, and both
store the same indices afterwards.
-/

namespace StateDatabase

open Programs GenericIndex Snapshots

variable {τ : Type} [DecidableEq τ] {F : IndexFamily τ}

/-! ## Loops over the indices -/

namespace Database

variable {database final left right : Database F} {base : Int} {depth : Nat}
  {t : τ}

/-- The same indices are stored, and the same are registered, in two orders. -/
structure Reordered (left right : Database F) : Prop where
  segment : left.segment = right.segment
  indexList : left.indexList.Perm right.indexList

omit [DecidableEq τ] in
theorem Reordered.index (reordered : left.Reordered right) (t : τ) :
    left.index t = right.index t := by
  rw [Database.index, reordered.segment]
  rfl

/-- A program that returned ran on a stored index. -/
theorem onIndex_ok {program : IndexM (F.indexType t) PUnit}
    (returned : onIndex t program database = .ok ⟨⟩ final) :
    ∃ index next, database.segment t = some index ∧
      program index = .ok ⟨⟩ next ∧ final = database.setIndex t next := by
  unfold onIndex at returned
  split at returned
  · cases returned
  · rename_i index found
    split at returned
    · rename_i value next ran
      cases returned
      exact ⟨index, next, found, ran, rfl⟩
    · cases returned

/-- A loop that returned has done its program to every index once. -/
theorem forIndices_returned
    {program : (t : τ) → IndexM (F.indexType t) PUnit} {targets : List τ}
    (nodup : targets.Nodup)
    (returned : forIndices program targets database = .ok ⟨⟩ final) :
    final.indexList = database.indexList ∧
      (∀ t ∈ targets, ∃ index, database.segment t = some index ∧
        program t index = .ok ⟨⟩ (final.index t) ∧
        final.segment t = some (final.index t)) ∧
      ∀ t ∉ targets, final.segment t = database.segment t := by
  induction targets generalizing database with
  | nil =>
      cases returned
      simp
  | cons first rest inductionHypothesis =>
      have parts := List.nodup_cons.mp nodup
      rw [forIndices] at returned
      rcases bind_apply_ok returned with ⟨_, middle, ran, later⟩
      rcases onIndex_ok ran with ⟨index, next, found, stepped, rfl⟩
      have follows := inductionHypothesis parts.2 later
      rcases follows with ⟨indexList, reached, others⟩
      -- the rest of the loop leaves the first index alone
      have isNext : final.segment first = some next := by
        rw [others first parts.1, setIndex_segment_self]
      refine ⟨indexList, ?_, ?_⟩
      · intro t member
        rcases List.mem_cons.mp member with isFirst | inRest
        · subst isFirst
          have isIndex : final.index t = next := by
            rw [Database.index, isNext, Option.getD_some]
          rw [isIndex]
          exact ⟨index, found, stepped, isNext⟩
        · have different : t ≠ first := fun same => parts.1 (same ▸ inRest)
          have reachedLater := reached t inRest
          rwa [setIndex_segment_ne different] at reachedLater
      · intro t notMember
        rw [List.mem_cons, not_or] at notMember
        rw [others t notMember.2, setIndex_segment_ne notMember.1]

/-- A loop does the same in every order. -/
theorem forIndices_reordered
    {program : (t : τ) → IndexM (F.indexType t) PUnit}
    {targets others : List τ} (segment : left.segment = right.segment)
    (sameTargets : targets.Perm others) (nodup : targets.Nodup)
    (returned : forIndices program targets left = .ok ⟨⟩ final) :
    ∃ other, forIndices program others right = .ok ⟨⟩ other ∧
      other.indexList = right.indexList ∧ final.segment = other.segment := by
  have effects := forIndices_returned nodup returned
  rcases effects with ⟨_, reached, unreached⟩
  have each : ∀ t ∈ others, ∃ index, right.segment t = some index ∧
      program t index = .ok ⟨⟩ (final.index t) := by
    intro t member
    rcases reached t (sameTargets.mem_iff.mpr member) with
      ⟨index, found, ran, _⟩
    exact ⟨index, segment ▸ found, ran⟩
  rcases forIndices_ok (sameTargets.nodup_iff.mp nodup) each with
    ⟨other, finished, indexList, _, segments⟩
  refine ⟨other, finished, indexList, ?_⟩
  funext t
  rw [segments]
  by_cases member : t ∈ others
  · rw [if_pos member]
    rcases reached t (sameTargets.mem_iff.mpr member) with
      ⟨_, _, _, isFinal⟩
    exact isFinal
  · rw [if_neg member, ← segment]
    exact unreached t fun isTarget =>
      member (sameTargets.mem_iff.mp isTarget)

/-! ## Registration -/

/-- All registered indices have one range, and this one is new. -/
structure Awaits (database : Database F) (t : τ) (base : Int) (depth : Nat) :
    Prop where
  uniform : database.Uniform
  absent : database.segment t = none
  unregistered : t ∉ database.indexList
  shapes : ∀ front ∈ database.indexList, database.HasShape front base depth
  flat : database.indexList = [] → base = 0 ∧ depth = 0

/-- The new index next to indices of one range, whatever they are. -/
def Adds (t : τ) (base : Int) (depth : Nat)
    (added : GenericIndex (F.indexType t)) : Prop :=
  ∀ {database : Database F}, database.Awaits t base depth →
    addIndex t database =
      .ok ⟨⟩ { database.setIndex t added with
        indexList := database.indexList ++ [t] }

/-- The first index, and every later one when the range is that of a new
index, stays as it is constructed. -/
theorem adds_empty (t : τ) :
    Adds t 0 0 (GenericIndex.empty (F.indexType t)) := by
  intro database awaits
  apply addIndex_unregistered awaits.unregistered
  rw [bind_apply_of_ok _
    (findOrConstruct_new awaits.absent awaits.uniform.writable)]
  cases isList : database.indexList with
  | nil =>
      simp only [register_apply, setIndex, isList]
  | cons front rest =>
      have member : front ∈ database.indexList := by simp [isList]
      have notFront : front ≠ t :=
        fun same => awaits.unregistered (same ▸ member)
      have frontShape : (database.setIndex t
          (GenericIndex.empty (F.indexType t))).HasShape front 0 0 := by
        rw [HasShape, setIndex_segment_ne notFront]
        exact awaits.shapes front member
      simp only
      rw [bind_apply_of_ok _ (reconcile_same frontShape
        ⟨_, setIndex_segment_self t _, Shape.empty _⟩), register_apply]
      simp only [setIndex, isList]

theorem adds_adopted {added : GenericIndex (F.indexType t)}
    (different : ((0 : Int), (0 : Int)) ≠ (base, base + (depth : Int)))
    (adopted : adoptRange (base, base + (depth : Int))
      (GenericIndex.empty (F.indexType t)) = .ok ⟨⟩ added) :
    Adds t base depth added := by
  intro database awaits
  apply addIndex_unregistered awaits.unregistered
  rw [bind_apply_of_ok _
    (findOrConstruct_new awaits.absent awaits.uniform.writable)]
  cases isList : database.indexList with
  | nil =>
      rcases awaits.flat isList with ⟨rfl, rfl⟩
      exact absurd rfl different
  | cons front rest =>
      have member : front ∈ database.indexList := by simp [isList]
      have notFront : front ≠ t :=
        fun same => awaits.unregistered (same ▸ member)
      have stillWritable : (database.setIndex t
          (GenericIndex.empty (F.indexType t))).readOnly = false :=
        awaits.uniform.writable
      have frontShape : (database.setIndex t
          (GenericIndex.empty (F.indexType t))).HasShape front base depth := by
        rw [HasShape, setIndex_segment_ne notFront]
        exact awaits.shapes front member
      simp only
      rw [bind_apply_of_ok _ (reconcile_adopted stillWritable frontShape
        (setIndex_segment_self t _) different adopted), register_apply]
      simp only [setIndex, Function.update_idem, isList]

theorem adds (t : τ) (nonneg : 0 ≤ base)
    (bounded : base + depth ≤ int64Max) :
    ∃ added : GenericIndex (F.indexType t), Adds t base depth added := by
  by_cases same : ((0 : Int), (0 : Int)) = (base, base + (depth : Int))
  · have flat : base = 0 ∧ depth = 0 := by
      simp only [Prod.mk.injEq] at same
      omega
    rcases flat with ⟨rfl, rfl⟩
    exact ⟨_, adds_empty t⟩
  · rcases adoptRange_apply (T := F.indexType t) nonneg bounded with
      ⟨added, adopted, _⟩
    exact ⟨added, adds_adopted same adopted⟩

omit [DecidableEq τ] in
/-- Every uniform database has a range for a new index. -/
theorem Uniform.awaits (uniform : database.Uniform)
    (absent : database.segment t = none) :
    ∃ (base : Int) (depth : Nat), 0 ≤ base ∧ base + depth ≤ int64Max ∧
      database.Awaits t base depth := by
  rcases uniform.shapes with ⟨base, depth, shapes⟩
  have unregistered : t ∉ database.indexList := by
    intro member
    rcases shapes t member with ⟨_, found, _⟩
    rw [absent] at found
    cases found
  cases isList : database.indexList with
  | nil =>
      exact ⟨0, 0, le_refl 0, by decide, uniform, absent, unregistered,
        by simp [isList], fun _ => ⟨rfl, rfl⟩⟩
  | cons front rest =>
      rcases shapes front (by simp [isList]) with ⟨_, _, frontShape⟩
      exact ⟨base, depth, frontShape.nonneg, frontShape.bounded, uniform,
        absent, unregistered, shapes, by simp [isList]⟩

omit [DecidableEq τ] in
theorem Reordered.awaits (reordered : left.Reordered right)
    (uniform : right.Uniform) (awaits : left.Awaits t base depth) :
    right.Awaits t base depth where
  uniform := uniform
  absent := by
    rw [← reordered.segment]
    exact awaits.absent
  unregistered := fun member =>
    awaits.unregistered (reordered.indexList.mem_iff.mpr member)
  shapes := by
    intro front member
    rw [HasShape, ← reordered.segment]
    exact awaits.shapes front (reordered.indexList.mem_iff.mpr member)
  flat := by
    intro noIndices
    apply awaits.flat
    have isPerm := reordered.indexList
    rw [noIndices] at isPerm
    exact isPerm.eq_nil

/-- Two databases that store the same indices add the same one. -/
theorem Reordered.addIndex (reordered : left.Reordered right)
    (leftUniform : left.Uniform) (rightUniform : right.Uniform)
    (absent : left.segment t = none) :
    ∃ next other, Database.addIndex t left = .ok ⟨⟩ next ∧
      Database.addIndex t right = .ok ⟨⟩ other ∧
      next.Reordered other ∧ other.indexList = right.indexList ++ [t] := by
  rcases leftUniform.awaits absent with ⟨base, depth, nonneg, bounded, awaits⟩
  rcases adds (F := F) t nonneg bounded with ⟨added, isAdded⟩
  refine ⟨_, _, isAdded awaits,
    isAdded (reordered.awaits rightUniform awaits), ⟨?_, ?_⟩, rfl⟩
  · simp only [setIndex, reordered.segment]
  · exact reordered.indexList.append_right [t]

theorem Reordered.setIndex (reordered : left.Reordered right) (t : τ)
    (index : GenericIndex (F.indexType t)) :
    (left.setIndex t index).Reordered (right.setIndex t index) where
  segment := by
    simp only [Database.setIndex, reordered.segment]
  indexList := reordered.indexList

end Database

/-! ## Clients -/

/-- The indices that a session ends on, in no order. -/
def DatabaseSession.targets (session : DatabaseSession τ) : Multiset τ :=
  (session.subSessions.map SubSession.index : List τ)

namespace Client

variable {left right : Client F} {leftCopies rightCopies : CopyingClient F}

/-- The databases store the same indices, the sessions are on the same indices,
and those of the right client know its indices in the order of their
registration. -/
structure Reordered (left right : Client F) : Prop where
  database : left.database.Reordered right.database
  sessions : left.sessions.map DatabaseSession.targets =
    right.sessions.map DatabaseSession.targets
  prefixes : ∀ session ∈ right.sessions,
    session.subSessions.map SubSession.index <+: right.database.indexList

namespace Reordered

omit [DecidableEq τ] in
theorem length (reordered : left.Reordered right) :
    left.sessions.length = right.sessions.length := by
  have lengths := congrArg List.length reordered.sessions
  simpa only [List.length_map] using lengths

omit [DecidableEq τ] in
/-- The sessions at one position are on the same indices. -/
theorem session {position : Nat} {session : DatabaseSession τ}
    (reordered : left.Reordered right)
    (isSession : right.sessions[position]? = some session) :
    ∃ other, left.sessions[position]? = some other ∧
      (other.subSessions.map SubSession.index).Perm
        (session.subSessions.map SubSession.index) := by
  have sameTargets := congrArg (fun targets => targets[position]?)
    reordered.sessions
  simp only [List.getElem?_map, isSession, Option.map_some] at sameTargets
  rcases Option.map_eq_some_iff.mp sameTargets with ⟨other, isOther, same⟩
  exact ⟨other, isOther, Multiset.coe_eq_coe.mp same⟩

omit [DecidableEq τ] in
/-- A session that covers the indices in one order covers them in the
other. -/
theorem covers {position : Nat} (reordered : left.Reordered right)
    (covers : DatabaseCall.Covers left position) :
    DatabaseCall.Covers right position := by
  intro session isSession
  rcases reordered.session isSession with ⟨other, isOther, sameTargets⟩
  rcases covers other isOther with ended | covered | flat
  · left
    rw [ended, List.map_nil] at sameTargets
    exact List.map_eq_nil_iff.mp (List.nil_perm.mp sameTargets)
  · right
    left
    have member := List.mem_of_getElem? isSession
    apply (reordered.prefixes session member).eq_of_length
    rw [← sameTargets.length_eq, covered]
    exact reordered.database.indexList.length_eq
  · right
    right
    intro t member index found
    rw [← reordered.database.segment] at found
    exact flat t (reordered.database.indexList.mem_iff.mpr member) index found

omit [DecidableEq τ] in
/-- What is proper on one client is proper on the other. -/
theorem proper {call : DatabaseCall F} (reordered : left.Reordered right)
    (proper : Proper left call) : Proper right call := by
  have member : ∀ {t : τ}, t ∈ right.database.indexList →
      t ∈ left.database.indexList :=
    fun isMember => reordered.database.indexList.mem_iff.mpr isMember
  have isMember : ∀ {t : τ}, t ∈ left.database.indexList →
      t ∈ right.database.indexList :=
    fun isMember => reordered.database.indexList.mem_iff.mp isMember
  rcases proper with ⟨covered, permitted⟩
  constructor
  · cases call with
    | addIndex t =>
        have absent : left.database.segment t = none := covered
        rw [reordered.database.segment] at absent
        exact absent
    | sessionSquash position => exact reordered.covers covered
    | sessionUndo position => exact reordered.covers covered
    | sessionDestroy position => exact reordered.covers covered
    | _ => trivial
  · cases call with
    | startUndoSession =>
        intro t registered
        rw [← reordered.database.index]
        exact permitted t (member registered)
    | sessionSquash position =>
        refine ⟨reordered.length ▸ permitted.1, fun t registered => ?_⟩
        rw [← reordered.database.index]
        exact permitted.2 t (member registered)
    | squash =>
        intro t registered
        rw [← reordered.database.index]
        exact permitted t (member registered)
    | sessionPush position =>
        have inside : position < left.sessions.length := permitted
        rw [reordered.length] at inside
        exact inside
    | sessionUndo position =>
        have inside : position < left.sessions.length := permitted
        rw [reordered.length] at inside
        exact inside
    | sessionDestroy position =>
        have inside : position < left.sessions.length := permitted
        rw [reordered.length] at inside
        exact inside
    | create t value => exact isMember permitted
    | modify t id modifier =>
        refine ⟨isMember permitted.1, ?_⟩
        rw [← reordered.database.index]
        exact permitted.2
    | remove t id =>
        refine ⟨isMember permitted.1, ?_⟩
        rw [← reordered.database.index]
        exact permitted.2
    | _ => trivial

/-! ### One call -/

omit [DecidableEq τ] in
/-- The indices change and the sessions do not. -/
theorem withDatabase {next other : Database F}
    (reordered : left.Reordered right) (databases : next.Reordered other)
    (prefixes : right.database.indexList <+: other.indexList) :
    Client.Reordered { left with database := next }
      { right with database := other } where
  database := databases
  sessions := reordered.sessions
  prefixes := fun session member =>
    (reordered.prefixes session member).trans prefixes

/-- A loop over the indices of both. -/
theorem everywhere {program : (t : τ) → IndexM (F.indexType t) PUnit}
    {loop : Database.DatabaseM F PUnit} (reordered : left.Reordered right)
    (nodup : left.database.indexList.Nodup)
    (isLoop : ∀ database,
      loop database = Database.forIndices program database.indexList database)
    (returns : ∃ final,
      Database.forIndices program left.database.indexList left.database =
          .ok ⟨⟩ final ∧
        final.indexList = left.database.indexList) :
    ∃ next other, survive (Client.onDatabase loop left) = some next ∧
      survive (Client.onDatabase loop right) = some other ∧
      next.Reordered other := by
  rcases returns with ⟨final, returned, indexList⟩
  rcases Database.forIndices_reordered reordered.database.segment
    reordered.database.indexList nodup returned with
    ⟨other, otherReturned, otherIndexList, segment⟩
  refine ⟨{ left with database := final }, { right with database := other },
    survive_onDatabase (by rw [isLoop, returned]; rfl),
    survive_onDatabase (by rw [isLoop, otherReturned]; rfl), ?_⟩
  apply reordered.withDatabase
  · refine ⟨segment, ?_⟩
    rw [indexList, otherIndexList]
    exact reordered.database.indexList
  · rw [otherIndexList]

omit [DecidableEq τ] in
/-- The sessions at one position are ended. -/
theorem onSession {position : Nat}
    {program : DatabaseSession τ → Database.DatabaseM F PUnit}
    (reordered : left.Reordered right)
    (inside : position < left.sessions.length)
    (returns : ∀ session, left.sessions[position]? = some session →
      ∀ other, right.sessions[position]? = some other →
        (session.subSessions.map SubSession.index).Perm
          (other.subSessions.map SubSession.index) →
          ∃ final otherFinal,
            program session left.database = .ok ⟨⟩ final ∧
            program other right.database = .ok ⟨⟩ otherFinal ∧
            final.Reordered otherFinal ∧
            otherFinal.indexList = right.database.indexList) :
    ∃ next other, Client.onSession position program left = .ok ⟨⟩ next ∧
      Client.onSession position program right = .ok ⟨⟩ other ∧
      next.Reordered other := by
  have isOther := List.getElem?_eq_getElem (reordered.length ▸ inside)
  rcases reordered.session isOther with ⟨session, isSession, sameTargets⟩
  rcases returns session isSession _ isOther sameTargets with
    ⟨final, otherFinal, returned, otherReturned, databases, indexList⟩
  refine ⟨_, _, onSession_ok isSession returned,
    onSession_ok isOther otherReturned, databases, ?_, ?_⟩
  · simp only [List.map_set, reordered.sessions, DatabaseSession.targets,
      DatabaseSession.clear, List.map_nil]
  · intro tested member
    simp only [indexList]
    rcases List.mem_or_eq_of_mem_set member with isOld | isCleared
    · exact reordered.prefixes tested isOld
    · subst isCleared
      exact List.nil_prefix

/-- A program on the sub-sessions, when they cover the indices. -/
theorem onSubSessions {position : Nat}
    {program : (t : τ) → IndexM (F.indexType t) PUnit}
    (reordered : left.Reordered right) (leftUniform : left.Uniform)
    (rightUniform : right.Uniform) (inside : position < left.sessions.length)
    (returns : ∀ session, left.sessions[position]? = some session →
      ∃ final,
        Database.forSubSessions program session.subSessions left.database =
          .ok ⟨⟩ final) :
    ∃ next other,
      Client.onSession position (fun session =>
        Database.forSubSessions program session.subSessions) left =
          .ok ⟨⟩ next ∧
      Client.onSession position (fun session =>
        Database.forSubSessions program session.subSessions) right =
          .ok ⟨⟩ other ∧
      next.Reordered other := by
  apply reordered.onSession inside
  intro session isSession other isOther sameTargets
  have known := leftUniform.sessions session (List.mem_of_getElem? isSession)
  have otherMember := List.mem_of_getElem? isOther
  have otherKnown := rightUniform.sessions other otherMember
  have nodup : (session.subSessions.map SubSession.index).Nodup :=
    sameTargets.nodup_iff.mpr
      (rightUniform.database.nodup.sublist
        (reordered.prefixes other otherMember).sublist)
  rcases returns session isSession with ⟨final, returned⟩
  simp only [Database.forSubSessions_eq fun subSession member =>
    (known subSession member).1] at returned ⊢
  simp only [Database.forSubSessions_eq fun subSession member =>
    (otherKnown subSession member).1]
  have indexList := (Database.forIndices_returned nodup returned).1
  rcases Database.forIndices_reordered reordered.database.segment sameTargets
    nodup returned with ⟨otherFinal, otherReturned, otherIndexList, segment⟩
  refine ⟨final, otherFinal, returned, otherReturned, ⟨segment, ?_⟩,
    otherIndexList⟩
  rw [indexList, otherIndexList]
  exact reordered.database.indexList

/-- A call on one index. -/
theorem rowCall (ndebug : Bool) {t : τ} (call : IndexCall (F.indexType t))
    (reordered : left.Reordered right) (mirrors : left.Mirrors leftCopies)
    (member : t ∈ left.database.indexList)
    (permitted : call.Permitted (F.indexType t).Interchangeable SquashSafe
      (left.database.index t)) :
    ∃ next other, survive (Client.onDatabase
        (Database.onRegistered t (call.program ndebug)) left) = some next ∧
      survive (Client.onDatabase
        (Database.onRegistered t (call.program ndebug)) right) = some other ∧
      next.Reordered other := by
  rcases mirrors.database.registered t member with ⟨index, found, represents⟩
  rw [Database.index, found, Option.getD_some] at permitted
  rcases represents_step ndebug index _ call represents permitted with
    ⟨changed, stepped, _⟩
  have otherFound := found
  rw [reordered.database.segment] at otherFound
  have otherMember := reordered.database.indexList.mem_iff.mp member
  exact ⟨_, _, survive_onDatabase (survive_onRegistered member found stepped),
    survive_onDatabase (survive_onRegistered otherMember otherFound stepped),
    reordered.withDatabase (reordered.database.setIndex t changed)
      (List.prefix_refl _)⟩

theorem addIndex {t : τ} (reordered : left.Reordered right)
    (leftUniform : left.Uniform) (rightUniform : right.Uniform)
    (absent : left.database.segment t = none) :
    ∃ next other,
      survive (Client.onDatabase (Database.addIndex t) left) = some next ∧
      survive (Client.onDatabase (Database.addIndex t) right) = some other ∧
      next.Reordered other := by
  rcases reordered.database.addIndex leftUniform.database
    rightUniform.database absent with
    ⟨next, other, added, otherAdded, databases, indexList⟩
  refine ⟨_, _, survive_onDatabase (by rw [added]; rfl),
    survive_onDatabase (by rw [otherAdded]; rfl),
    reordered.withDatabase databases ?_⟩
  rw [indexList]
  exact List.prefix_append _ _

/-- Both start a session on all their indices. -/
theorem startUndoSession (reordered : left.Reordered right)
    (leftUniform : left.Uniform) (rightUniform : right.Uniform)
    (bounded : ∀ t ∈ left.database.indexList,
      (left.database.index t).revision < int64Max) :
    ∃ next other, survive (Client.startUndoSession left) = some next ∧
      survive (Client.startUndoSession right) = some other ∧
      next.Reordered other := by
  rcases leftUniform.database.shapes with ⟨base, depth, shapes⟩
  have rightShapes : ∀ t ∈ right.database.indexList,
      right.database.HasShape t base depth := by
    intro t member
    rw [Database.HasShape, ← reordered.database.segment]
    exact shapes t (reordered.database.indexList.mem_iff.mpr member)
  have nodup := leftUniform.database.nodup
  have each : ∀ t ∈ left.database.indexList,
      ∃ index, left.database.segment t = some index ∧
        GenericIndex.startUndoSession index = .ok ⟨⟩
          { left.database.index t with
            stack := UndoState.empty (F.indexType t)
              ((left.database.index t).revision + 1) ::
                (left.database.index t).stack
            revision := (left.database.index t).revision + 1 } := by
    intro t member
    rcases shapes t member with ⟨index, found, _⟩
    have isIndex : left.database.index t = index := by
      rw [Database.index, found, Option.getD_some]
    have isBounded := bounded t member
    rw [isIndex] at isBounded ⊢
    exact ⟨index, found, startUndoSession_apply isBounded⟩
  rcases Database.forIndices_ok nodup each with
    ⟨final, returned, indexList, _, _⟩
  rcases Database.forIndices_reordered reordered.database.segment
    reordered.database.indexList nodup returned with
    ⟨other, otherReturned, otherIndexList, segment⟩
  rcases Database.startSubSessions_of_forIndices returned with ⟨_, ran⟩
  rcases Database.startSubSessions_of_forIndices otherReturned with
    ⟨_, otherRan⟩
  have targets := ((Database.ends_startSubSessions _ _ nodup shapes).of_ok
    ran).2.1
  have otherTargets := ((Database.ends_startSubSessions _ _
    rightUniform.database.nodup rightShapes).of_ok otherRan).2.1
  refine ⟨_, _, survive_startUndoSession ran,
    survive_startUndoSession otherRan, ⟨segment, ?_⟩, ?_, ?_⟩
  · rw [indexList, otherIndexList]
    exact reordered.database.indexList
  · simp only [List.map_cons, reordered.sessions, List.cons.injEq, and_true,
      DatabaseSession.targets, DatabaseSession.ofSubSessions, targets,
      otherTargets]
    exact Multiset.coe_eq_coe.mpr reordered.database.indexList
  · intro session member
    simp only [otherIndexList]
    rcases List.mem_cons.mp member with isNew | isOld
    · subst isNew
      simp only [DatabaseSession.ofSubSessions, otherTargets]
      exact List.prefix_refl _
    · exact reordered.prefixes session isOld

/-- `set_revision` is accepted by all indices or by none. -/
theorem setRevision (ndebug : Bool) (revision : UInt64)
    (reordered : left.Reordered right) (leftMirrors : left.Mirrors leftCopies)
    (rightMirrors : right.Mirrors rightCopies) :
    ∃ next other,
      (DatabaseCall.setRevision revision).step ndebug left = some next ∧
      (DatabaseCall.setRevision revision).step ndebug right = some other ∧
      next.Reordered other := by
  rcases leftMirrors.uniform.database.shapes with ⟨base, depth, shapes⟩
  have rightShapes : ∀ t ∈ right.database.indexList,
      right.database.HasShape t base depth := by
    intro t member
    rw [Database.HasShape, ← reordered.database.segment]
    exact shapes t (reordered.database.indexList.mem_iff.mpr member)
  by_cases accepted : depth = 0 ∧ (revision.toNat : Int) ≤ int64Max
  · have each : ∀ t ∈ left.database.indexList,
        ∃ index, left.database.segment t = some index ∧
          GenericIndex.setRevision revision index = .ok ⟨⟩
            { left.database.index t with
              revision := (revision.toNat : Int) } := by
      intro t member
      rcases shapes t member with ⟨index, found, shape⟩
      have isIndex : left.database.index t = index := by
        rw [Database.index, found, Option.getD_some]
      have noStates := shape.stack_eq_nil_iff.mpr accepted.1
      rw [isIndex]
      exact ⟨index, found, setRevision_apply_nil noStates accepted.2⟩
    have nodup := leftMirrors.uniform.database.nodup
    rcases Database.forIndices_ok nodup each with
      ⟨final, returned, indexList, _, _⟩
    exact reordered.everywhere nodup (fun _ => rfl)
      ⟨final, returned, indexList⟩
  · -- it is refused at the first index, and nothing has changed by then
    have refused : ∀ {client next : Client F},
        (∀ t ∈ client.database.indexList,
          client.database.HasShape t base depth) →
          (DatabaseCall.setRevision revision).step ndebug client =
              some next → next = client := by
      intro client next shapes stepped
      refine survive_of_ends (fun final => final = client) ?_ stepped
      have loop : Ends (Database.forIndices
          (fun _ => GenericIndex.setRevision revision)
          client.database.indexList) client.database
            (fun _ final => final = client.database)
            (fun _ final => final = client.database) :=
        Database.ends_forIndices_refused
          (fun t index shape => (shape.ends_setRevision revision).imp
            (fun _ _ result => accepted ⟨result.1, result.2.1⟩)
            fun _ _ isRefused => isRefused.1)
          client.database.indexList shapes
      refine ends_zoom (loop.imp ?_ ?_)
      · intro _ final unchanged
        rw [unchanged]
      · intro _ final unchanged _
        rw [unchanged]
    rcases mirrors_step ndebug left leftCopies (.setRevision revision)
      leftMirrors ⟨trivial, trivial⟩ with ⟨next, stepped, _⟩
    rcases mirrors_step ndebug right rightCopies (.setRevision revision)
      rightMirrors ⟨trivial, trivial⟩ with ⟨other, otherStepped, _⟩
    refine ⟨next, other, stepped, otherStepped, ?_⟩
    rw [refused shapes stepped, refused rightShapes otherStepped]
    exact reordered

/-- A program that the index of every sub-session returns from, as a squash and
an undo do. -/
theorem endSession {position : Nat}
    {program : (t : τ) → IndexM (F.indexType t) PUnit}
    {step : History (DatabaseRows F) → History (DatabaseRows F)}
    (reordered : left.Reordered right) (leftMirrors : left.Mirrors leftCopies)
    (rightMirrors : right.Mirrors rightCopies)
    (inside : position < left.sessions.length)
    (covers : DatabaseCall.Covers left position)
    (everywhere : ∃ final,
      Database.forIndices program left.database.indexList left.database =
          .ok ⟨⟩ final ∧
        final.indexList = left.database.indexList ∧
        final.Mirrors (step leftCopies.history))
    (unchanged : ∀ (t : τ) (index : GenericIndex (F.indexType t)),
      index.stack = [] → program t index = .ok ⟨⟩ index)
    (settled : leftCopies.history.copies = [] →
      step leftCopies.history = leftCopies.history) :
    ∃ next other,
      Client.onSession position (fun session =>
        Database.forSubSessions program session.subSessions) left =
          .ok ⟨⟩ next ∧
      Client.onSession position (fun session =>
        Database.forSubSessions program session.subSessions) right =
          .ok ⟨⟩ other ∧
      next.Reordered other := by
  apply reordered.onSubSessions leftMirrors.uniform rightMirrors.uniform inside
  intro session isSession
  rcases leftMirrors.forSubSessions isSession covers everywhere unchanged
    settled with ⟨final, returned, _⟩
  exact ⟨final, returned⟩

/-- The destructor of a session. -/
theorem sessionDestroy (ndebug : Bool) {position : Nat}
    (undone : ∃ next other,
      Client.onSession position Database.sessionUndo left = .ok ⟨⟩ next ∧
      Client.onSession position Database.sessionUndo right = .ok ⟨⟩ other ∧
      next.Reordered other) :
    ∃ next other,
      (DatabaseCall.sessionDestroy position).step ndebug left = some next ∧
      (DatabaseCall.sessionDestroy position).step ndebug right = some other ∧
      next.Reordered other := by
  rcases undone with ⟨next, other, returned, otherReturned, reordered⟩
  have isUndone : ∀ {client final : Client F},
      Client.onSession position Database.sessionUndo client = .ok ⟨⟩ final →
        (DatabaseCall.sessionDestroy position).step ndebug client =
          some { final with
            sessions := final.sessions.eraseIdx position } := by
    intro client final undone
    simp only [DatabaseCall.step, DatabaseCall.program]
    rw [bind_apply_of_ok _ undone]
    rfl
  refine ⟨_, _, isUndone returned, isUndone otherReturned, reordered.database,
    ?_, ?_⟩
  · simp only [← List.eraseIdx_map, reordered.sessions]
  · intro session member
    exact reordered.prefixes session (List.mem_of_mem_eraseIdx member)

end Reordered

end Client

open Client in
/-- A proper call leaves the same indices behind whatever the order in which
they are registered. -/
theorem reordered_step (ndebug : Bool) {left right : Client F}
    {leftCopies rightCopies : CopyingClient F} {call : DatabaseCall F}
    (reordered : left.Reordered right) (leftMirrors : left.Mirrors leftCopies)
    (rightMirrors : right.Mirrors rightCopies) (proper : Proper left call) :
    ∃ next other, call.step ndebug left = some next ∧
      call.step ndebug right = some other ∧ next.Reordered other := by
  have leftUniform := leftMirrors.uniform
  have rightUniform := rightMirrors.uniform
  have nodup := leftUniform.database.nodup
  have database := leftMirrors.database
  -- a program that leaves a mirrored database behind returned
  have returns : ∀ {program : Database.DatabaseM F PUnit}
      {history : History (DatabaseRows F)},
      (∃ final, program left.database = .ok ⟨⟩ final ∧
        final.indexList = left.database.indexList ∧ final.Mirrors history) →
        ∃ final, program left.database = .ok ⟨⟩ final ∧
          final.indexList = left.database.indexList := by
    intro program history effect
    rcases effect with ⟨final, ran, indexList, _⟩
    exact ⟨final, ran, indexList⟩
  have survives : ∀ {program : ClientM F PUnit},
      (∃ next other, program left = .ok ⟨⟩ next ∧
        program right = .ok ⟨⟩ other ∧ next.Reordered other) →
        ∃ next other, survive (program left) = some next ∧
          survive (program right) = some other ∧ next.Reordered other := by
    intro program effect
    rcases effect with ⟨next, other, ran, otherRan, holds⟩
    exact ⟨next, other, congrArg survive ran, congrArg survive otherRan, holds⟩
  rcases proper with ⟨covered, permitted⟩
  cases call with
  | addIndex t => exact reordered.addIndex leftUniform rightUniform covered
  | startUndoSession =>
      exact reordered.startUndoSession leftUniform rightUniform permitted
  | sessionPush position =>
      apply survives
      apply reordered.onSession permitted
      intro session _ other _ _
      exact ⟨_, _, rfl, rfl, reordered.database, rfl⟩
  | sessionSquash position =>
      exact survives (reordered.endSession leftMirrors rightMirrors permitted.1
        covered (database.squashed ndebug nodup permitted.2)
        (fun _ _ => squash_apply_nil) fun noCopies => by
          simp [History.squash, noCopies])
  | sessionUndo position =>
      exact survives (reordered.endSession leftMirrors rightMirrors permitted
        covered (database.undone nodup) (fun _ _ => undo_apply_nil)
        fun noCopies => by simp [History.undo, noCopies])
  | sessionDestroy position =>
      exact Reordered.sessionDestroy ndebug
        (reordered.endSession leftMirrors rightMirrors permitted covered
          (database.undone nodup) (fun _ _ => undo_apply_nil)
          fun noCopies => by simp [History.undo, noCopies])
  | undo =>
      exact reordered.everywhere nodup (fun _ => rfl)
        (returns (database.undone nodup))
  | squash =>
      exact reordered.everywhere nodup (fun _ => rfl)
        (returns (database.squashed ndebug nodup permitted))
  | commit revision =>
      exact reordered.everywhere nodup (fun _ => rfl)
        (returns (database.committed revision nodup))
  | undoAll =>
      exact reordered.everywhere nodup (fun _ => rfl)
        (returns (database.unwound nodup))
  | setRevision revision =>
      exact reordered.setRevision ndebug revision leftMirrors rightMirrors
  | create t value =>
      exact reordered.rowCall ndebug (.emplace value) leftMirrors permitted
        trivial
  | modify t id modifier =>
      exact reordered.rowCall ndebug (.modify id modifier) leftMirrors
        permitted.1 permitted.2
  | remove t id =>
      exact reordered.rowCall ndebug (.remove id) leftMirrors permitted.1
        permitted.2

end StateDatabase
