import Mathlib
import StateDatabase.Library.Runs
import StateDatabase.Library.Programs
import StateDatabase.Library.Maps

/-!
# The container behind an index

`boost::multi_index_container` keeps one set of rows under several indices.
Every index of this repository is unique, and the first one is on the object
id.  So the rows are a finite map from ids to values, and the further unique
keys only decide which values may be stored together.

The three operations follow the documented behaviour of the container:

* `emplace` refuses a value that agrees with a stored row on any unique key;
* `erase` takes the row of an id away;
* `modify` gives a row a new value; when the new value clashes with another
  row, the element is erased and the call reports failure.
-/

namespace StateDatabase

open Maps

/-- How a call can end without returning. -/
inductive Fault where
  /-- `std::logic_error` -/
  | logicError (message : String)
  /-- `std::runtime_error` -/
  | runtimeError (message : String)
  /-- `std::bad_alloc` -/
  | badAlloc
  /-- a failed `FC_ASSERT`, which throws -/
  | fcAssertion (message : String)
  /-- a failed `assert` -/
  | assertion (message : String)
  /-- `std::abort()` -/
  | abort
  /-- behaviour that the language leaves undefined -/
  | undefined
deriving DecidableEq, Repr

namespace Fault

/-- An exception can be caught; the other faults end the process. -/
@[simp]
def isException : Fault → Bool
  | .logicError _ => true
  | .runtimeError _ => true
  | .badAlloc => true
  | .fcAssertion _ => true
  | .assertion _ => false
  | .abort => false
  | .undefined => false

/-- A failed `assert` after which the code follows a pointer or a position
that does not exist, if assertions are compiled away. -/
def failedAssert (ndebug : Bool) (message : String) : Fault :=
  if ndebug then .undefined else .assertion message

theorem failedAssert_isException (ndebug : Bool) (message : String) :
    (failedAssert ndebug message).isException = false := by
  cases ndebug with
  | false => rfl
  | true => rfl

end Fault

/-- The state from which a caller goes on that catches exceptions; `none` when
the process has ended. -/
def survive {σ α : Type} : EStateM.Result Fault σ α → Option σ
  | .ok _ state => some state
  | .error fault state => if fault.isException then some state else none

/-- What a program that ended normally or with an exception left behind. -/
theorem survive_of_ends {σ α : Type} {program : EStateM Fault σ α}
    {state final : σ} (invariant : σ → Prop)
    (ends : Programs.Ends program state (fun _ left => invariant left)
      (fun fault left => fault.isException = true → invariant left))
    (survived : survive (program state) = some final) :
    invariant final := by
  cases ran : program state with
  | ok value left =>
      rw [ran] at survived
      cases survived
      simpa only [Programs.Ends, ran] using ends
  | error fault left =>
      rw [ran] at survived
      simp only [survive] at survived
      split at survived
      · cases survived
        have holds : fault.isException = true → invariant final := by
          simpa only [Programs.Ends, ran] using ends
        exact holds ‹_›
      · cases survived

/-- One further unique key of a container. -/
structure UniqueKey (Value : Type) where
  Key : Type
  [decEq : DecidableEq Key]
  get : Value → Key

attribute [instance] UniqueKey.decEq

/-- The type of an index: its objects, their ids, and the unique keys besides
the id. -/
structure IndexType where
  Id : Type
  Value : Type
  [decEqId : DecidableEq Id]
  [ordId : Ord Id]
  [transId : Std.TransOrd Id]
  [lawfulId : Std.LawfulEqOrd Id]
  id : Value → Id
  uniqueKeys : List (UniqueKey Value)

attribute [instance] IndexType.decEqId IndexType.ordId IndexType.transId
  IndexType.lawfulId

/-- `std::map` and `std::set` keyed by object ids. -/
abbrev IdMap (T : IndexType) (β : Type) := Std.ExtTreeMap T.Id β compare

abbrev IdSet (T : IndexType) := Std.ExtTreeSet T.Id compare

namespace IndexType

variable (T : IndexType)

/-- Two values that no container can hold together, whatever their ids. -/
def Clash (left right : T.Value) : Prop :=
  ∃ key ∈ T.uniqueKeys, key.get left = key.get right

instance (left right : T.Value) : Decidable (T.Clash left right) := by
  unfold Clash
  infer_instance

theorem Clash.symm {T : IndexType} {left right : T.Value}
    (clash : T.Clash left right) : T.Clash right left := by
  obtain ⟨key, member, equal⟩ := clash
  exact ⟨key, member, equal.symm⟩

/-- The new value keeps the id and every uniquely indexed key. -/
def KeepsKeys (old new : T.Value) : Prop :=
  T.id new = T.id old ∧ ∀ key ∈ T.uniqueKeys, key.get new = key.get old

instance (old new : T.Value) : Decidable (T.KeepsKeys old new) := by
  unfold KeepsKeys
  infer_instance

/-- The two values exclude the same other values.  A row may change to an
interchangeable value at any time without a uniqueness violation. -/
def Interchangeable (old new : T.Value) : Prop :=
  T.id new = T.id old ∧ ∀ other, T.Clash new other ↔ T.Clash old other

variable {T}

theorem KeepsKeys.interchangeable {old new : T.Value}
    (keeps : T.KeepsKeys old new) : T.Interchangeable old new := by
  refine ⟨keeps.1, fun other => ?_⟩
  constructor
  · rintro ⟨key, member, equal⟩
    exact ⟨key, member, (keeps.2 key member).symm.trans equal⟩
  · rintro ⟨key, member, equal⟩
    exact ⟨key, member, (keeps.2 key member).trans equal⟩

theorem Interchangeable.refl (value : T.Value) :
    T.Interchangeable value value :=
  ⟨rfl, fun _ => Iff.rfl⟩

theorem Interchangeable.symm {old new : T.Value}
    (same : T.Interchangeable old new) : T.Interchangeable new old :=
  ⟨same.1.symm, fun other => (same.2 other).symm⟩

theorem Interchangeable.trans {first second third : T.Value}
    (left : T.Interchangeable first second)
    (right : T.Interchangeable second third) :
    T.Interchangeable first third :=
  ⟨right.1.trans left.1, fun other =>
    (right.2 other).trans (left.2 other)⟩

end IndexType

/-! ## Containers -/

/-- The rows of a container.  Each row stands under its own id and no two rows
clash. -/
@[ext]
structure MultiIndex (T : IndexType) where
  rows : IdMap T T.Value
  keyed : ∀ {id : T.Id} {value : T.Value},
    rows[id]? = some value → T.id value = id
  unique : ∀ {left right : T.Id} {first second : T.Value},
    rows[left]? = some first → rows[right]? = some second →
      T.Clash first second → left = right

namespace MultiIndex

variable {T : IndexType}

/-- Containers with the same row under every id are equal. -/
theorem ext_row {left right : MultiIndex T}
    (agree : ∀ id : T.Id, left.rows[id]? = right.rows[id]?) :
    left = right :=
  MultiIndex.ext (Std.ExtTreeMap.ext_getElem? agree)

/-- The container without rows. -/
def empty (T : IndexType) : MultiIndex T where
  rows := ∅
  keyed := by simp
  unique := by simp

@[simp]
theorem empty_row (id : T.Id) : (empty T).rows[id]? = none := by
  simp [empty]

/-- Lookup in the first index. -/
def find (container : MultiIndex T) (id : T.Id) : Option T.Value :=
  container.rows[id]?

/-- No stored row has the id or one of the unique keys of the value. -/
def Admits (container : MultiIndex T) (value : T.Value) : Prop :=
  container.rows[T.id value]? = none ∧
    ∀ entry ∈ container.rows.toList, ¬ T.Clash value entry.2

instance (container : MultiIndex T) (value : T.Value) :
    Decidable (container.Admits value) := by
  unfold Admits
  infer_instance

theorem admits_iff (container : MultiIndex T) (value : T.Value) :
    container.Admits value ↔
      container.rows[T.id value]? = none ∧
        ∀ (id : T.Id) (row : T.Value),
          container.rows[id]? = some row → ¬ T.Clash value row := by
  unfold Admits
  refine and_congr_right fun _ => ?_
  constructor
  · intro distinct id row found
    exact distinct (id, row)
      (Std.ExtTreeMap.mem_toList_iff_getElem?_eq_some.mpr found)
  · intro distinct entry member
    exact distinct entry.1 entry.2
      (Std.ExtTreeMap.mem_toList_iff_getElem?_eq_some.mp member)

/-- Store an admitted value. -/
def insert (container : MultiIndex T) (value : T.Value)
    (admits : container.Admits value) : MultiIndex T where
  rows := container.rows.insert (T.id value) value
  keyed := by
    intro id row found
    rw [map_insert] at found
    split at found
    · cases found
      assumption
    · exact container.keyed found
  unique := by
    intro left right first second leftRow rightRow clash
    have distinct := ((admits_iff container value).mp admits).2
    rw [map_insert] at leftRow rightRow
    split at leftRow
    · cases leftRow
      split at rightRow
      · exact ‹T.id value = left›.symm.trans ‹T.id value = right›
      · exact False.elim (distinct right second rightRow clash)
    · split at rightRow
      · cases rightRow
        exact False.elim (distinct left first leftRow clash.symm)
      · exact container.unique leftRow rightRow clash

/-- `emplace`: the stored row, or nothing when a unique key is taken. -/
def emplace (container : MultiIndex T) (value : T.Value) :
    Option (MultiIndex T) :=
  if admits : container.Admits value then
    some (container.insert value admits)
  else
    none

/-- `erase` of the row of an id. -/
def erase (container : MultiIndex T) (id : T.Id) : MultiIndex T where
  rows := container.rows.erase id
  keyed := by
    intro tested value found
    rw [map_erase] at found
    split at found
    · cases found
    · exact container.keyed found
  unique := by
    intro left right first second leftRow rightRow clash
    rw [map_erase] at leftRow rightRow
    split at leftRow
    · cases leftRow
    · split at rightRow
      · cases rightRow
      · exact container.unique leftRow rightRow clash

/-- `modify`: the row of the id takes the new value.  `none` stands for the
failure report, after which the element is gone. -/
def modify (container : MultiIndex T) (id : T.Id) (value : T.Value) :
    Option (MultiIndex T) :=
  (container.erase id).emplace value

@[simp]
theorem insert_row (container : MultiIndex T) (value : T.Value)
    (admits : container.Admits value) (tested : T.Id) :
    (container.insert value admits).rows[tested]? =
      if T.id value = tested then some value else container.rows[tested]? :=
  map_insert container.rows (T.id value) tested value

@[simp]
theorem erase_row (container : MultiIndex T) (id tested : T.Id) :
    (container.erase id).rows[tested]? =
      if id = tested then none else container.rows[tested]? :=
  map_erase container.rows id tested

theorem emplace_of_admits {container : MultiIndex T} {value : T.Value}
    (admits : container.Admits value) :
    container.emplace value = some (container.insert value admits) := by
  simp [emplace, admits]

theorem emplace_eq_none_iff (container : MultiIndex T) (value : T.Value) :
    container.emplace value = none ↔ ¬ container.Admits value := by
  simp [emplace]

theorem admits_of_emplace {container stored : MultiIndex T} {value : T.Value}
    (success : container.emplace value = some stored) :
    container.Admits value := by
  by_contra refused
  rw [(emplace_eq_none_iff container value).mpr refused] at success
  cases success

/-- What a successful `emplace` did. -/
theorem emplace_some {container stored : MultiIndex T} {value : T.Value}
    (success : container.emplace value = some stored) :
    container.rows[T.id value]? = none ∧
      ∀ tested : T.Id,
        stored.rows[tested]? =
          if T.id value = tested then some value
          else container.rows[tested]? := by
  unfold emplace at success
  split at success
  · rename_i admits
    cases success
    exact ⟨admits.1, insert_row container value admits⟩
  · cases success

/-! ### Lookup by another key -/

/-- Lookup in a further unique index. -/
def findBy {κ : Type} [DecidableEq κ] (container : MultiIndex T)
    (get : T.Value → κ) (key : κ) : Option T.Value :=
  (container.rows.toList.find? fun entry => get entry.2 = key).map Prod.snd

section FindBy

variable {κ : Type} [DecidableEq κ] {container : MultiIndex T}
  {get : T.Value → κ} {key : κ}

theorem findBy_some {value : T.Value}
    (found : container.findBy get key = some value) :
    container.rows[T.id value]? = some value ∧ get value = key := by
  obtain ⟨entry, isEntry, rfl⟩ := Option.map_eq_some_iff.mp found
  have row := (mem_map_toList _ _ _).mp (List.mem_of_find?_eq_some isEntry)
  have keyed := container.keyed row
  refine ⟨by rw [keyed, row], ?_⟩
  simpa using List.find?_some isEntry

theorem findBy_eq_none_iff :
    container.findBy get key = none ↔
      ∀ (id : T.Id) (value : T.Value),
        container.rows[id]? = some value → get value ≠ key := by
  unfold findBy
  rw [Option.map_eq_none_iff, List.find?_eq_none]
  constructor
  · intro absent id value row
    simpa using absent (id, value) ((mem_map_toList _ _ _).mpr row)
  · intro absent entry member
    simpa using absent entry.1 entry.2 ((mem_map_toList _ _ _).mp member)

/-- A lookup in a unique index finds the row with the key. -/
theorem findBy_of_row {id : T.Id} {value : T.Value}
    (clashes : ∀ left right : T.Value, get left = get right → T.Clash left right)
    (row : container.rows[id]? = some value) (isKey : get value = key) :
    container.findBy get key = some value := by
  cases found : container.findBy get key with
  | none =>
      exact absurd isKey (findBy_eq_none_iff.mp found id value row)
  | some other =>
      obtain ⟨otherRow, otherKey⟩ := findBy_some found
      have sameId := container.unique row otherRow
        (clashes value other (isKey.trans otherKey.symm))
      rw [← sameId, row] at otherRow
      exact otherRow.symm

end FindBy

/-! ### Counting rows -/

/-- The number of rows with a property. -/
def countIf (container : MultiIndex T) (property : T.Value → Bool) : Nat :=
  container.rows.toList.countP fun entry => property entry.2

section CountIf

variable {container : MultiIndex T} (property : T.Value → Bool)

@[simp]
theorem countIf_empty : (empty T).countIf property = 0 := by
  have noEntries : (∅ : IdMap T T.Value).toList = [] := rfl
  simp [countIf, empty, noEntries]

/-- A new row counts when it has the property. -/
theorem countIf_insert {stored : MultiIndex T} {value : T.Value}
    (absent : container.rows[T.id value]? = none)
    (rows : ∀ tested : T.Id, stored.rows[tested]? =
      if T.id value = tested then some value else container.rows[tested]?) :
    stored.countIf property =
      container.countIf property + if property value then 1 else 0 := by
  have entries : stored.rows.toList.Perm
      ((T.id value, value) :: container.rows.toList) := by
    apply perm_toList
    · rw [List.map_cons, List.nodup_cons, map_key_mem_iff]
      exact ⟨not_not_intro absent, nodup_map_keys _⟩
    · intro id row
      rw [List.mem_cons, mem_map_toList, rows, Prod.mk.injEq]
      split
      · rename_i isId
        subst isId
        simp [absent, eq_comm]
      · rename_i different
        simp [Ne.symm different]
  rw [countIf, entries.countP_eq, List.countP_cons, countIf]

/-- The count without a row. -/
theorem countIf_erase {id : T.Id} {value : T.Value}
    (found : container.rows[id]? = some value) :
    container.countIf property =
      (container.erase id).countIf property +
        if property value then 1 else 0 := by
  have isId : T.id value = id := container.keyed found
  apply countIf_insert property
  · rw [isId, erase_row, if_pos rfl]
  · intro tested
    rw [isId, erase_row]
    split
    · rename_i same
      rw [← same, found]
    · rfl

/-- Changing a row without changing the property. -/
theorem countIf_replace {modified : MultiIndex T} {id : T.Id}
    {old new : T.Value} (found : container.rows[id]? = some old)
    (same : property new = property old)
    (rows : ∀ tested : T.Id, modified.rows[tested]? =
      if id = tested then some new else container.rows[tested]?) :
    modified.countIf property = container.countIf property := by
  have newFound : modified.rows[id]? = some new := by rw [rows, if_pos rfl]
  have sameRest : modified.erase id = container.erase id := by
    apply ext_row
    intro tested
    rw [erase_row, erase_row, rows]
    split
    · rfl
    · rfl
  rw [countIf_erase property newFound, countIf_erase property found, sameRest,
    same]

variable {property} in
theorem countIf_eq_zero_iff :
    container.countIf property = 0 ↔
      ∀ (id : T.Id) (value : T.Value),
        container.rows[id]? = some value → property value = false := by
  rw [countIf, List.countP_eq_zero]
  constructor
  · intro none id value found
    simpa using none (id, value) ((mem_map_toList _ _ _).mpr found)
  · intro none entry member
    simpa using none entry.1 entry.2 ((mem_map_toList _ _ _).mp member)

variable {property} in
/-- A stronger property that a row has lost counts fewer rows. -/
theorem countIf_lt {stronger : T.Value → Bool} {id : T.Id} {value : T.Value}
    (implies : ∀ other, stronger other = true → property other = true)
    (found : container.rows[id]? = some value)
    (has : property value = true) (lost : stronger value = false) :
    container.countIf stronger < container.countIf property := by
  have fewer : (container.erase id).countIf stronger ≤
      (container.erase id).countIf property :=
    List.countP_mono_left fun entry _ => implies entry.2
  rw [countIf_erase stronger found, countIf_erase property found]
  simp only [has, lost, if_true]
  exact Nat.lt_succ_of_le fewer

end CountIf

end MultiIndex

end StateDatabase
