import Mathlib
import StateDatabase.MultiIndex

/-!
# `iterator_cache`

`eos_db` hands out rows as small integers.  The cache keeps the addresses of
the rows by integer and the integers by address, and for each table that was
used its address and its end iterator.  A removed row leaves an empty entry
behind, so its integer is not used again.
-/

namespace StateDatabase

open Maps

/-- An address in the shared segment. -/
abbrev Address := Nat

/-- The conversion of a `size_t` to `int`. -/
def toInt32 (value : Int) : Int :=
  value.bmod (2 ^ 32)

theorem toInt32_eq {value : Int} (lower : -2 ^ 31 ≤ value)
    (upper : value < 2 ^ 31) :
    toInt32 value = value := by
  unfold toInt32
  rw [Int.bmod_eq_iff (by decide)]
  omega

structure IteratorCache where
  tableCache : Std.ExtTreeMap Int64 (Address × Int)
  endIteratorToTable : List Address
  iteratorToObject : List (Option Address)
  objectToIterator : Std.ExtTreeMap Address Int

namespace IteratorCache

def empty : IteratorCache :=
  { tableCache := ∅
    endIteratorToTable := []
    iteratorToObject := []
    objectToIterator := ∅ }

def indexToEndIterator (index : Nat) : Int :=
  toInt32 (-(index + 2))

/-- Returns the end iterator of the table. -/
def cacheTable (cache : IteratorCache) (id : Int64) (address : Address) :
    Int × IteratorCache :=
  match cache.tableCache[id]? with
  | some entry => (entry.2, cache)
  | none =>
      let endIterator := indexToEndIterator cache.endIteratorToTable.length
      (endIterator,
        { cache with
          endIteratorToTable := cache.endIteratorToTable ++ [address]
          tableCache :=
            cache.tableCache.insertIfNew id (address, endIterator) })

def getTable (ndebug : Bool) (cache : IteratorCache) (id : Int64) :
    Except Fault Address :=
  match cache.tableCache[id]? with
  | some entry => .ok entry.1
  | none =>
      .error (.failedAssert ndebug
        "an invariant was broken, table should be in cache")

def getEndIteratorByTableId (ndebug : Bool) (cache : IteratorCache)
    (id : Int64) : Except Fault Int :=
  match cache.tableCache[id]? with
  | some entry => .ok entry.2
  | none =>
      .error (.failedAssert ndebug
        "an invariant was broken, table should be in cache")

/-- The negation of the least `int` overflows. -/
def endIteratorToIndex (endIterator : Int) : Except Fault Nat :=
  if endIterator ≤ -2 ^ 31 then .error .undefined
  else .ok (-endIterator - 2).toNat

/-- A pointer, not yet followed, or the null pointer. -/
def findTableByEndIterator (ndebug : Bool) (cache : IteratorCache)
    (endIterator : Int) : Except Fault (Option Address) :=
  if endIterator < -1 then do
    let index ← endIteratorToIndex endIterator
    return cache.endIteratorToTable[index]?
  else .error (.failedAssert ndebug "not an end iterator")

def get (ndebug : Bool) (cache : IteratorCache) (iterator : Int) :
    Except Fault Address :=
  if iterator = -1 then
    .error (.failedAssert ndebug "invalid iterator")
  else if iterator < 0 then
    .error (.failedAssert ndebug "dereference of end iterator")
  else
    match cache.iteratorToObject[iterator.toNat]? with
    | none => .error (.failedAssert ndebug "iterator out of range")
    | some none => .error (.failedAssert ndebug "dereference of deleted object")
    | some (some address) => .ok address

def remove (ndebug : Bool) (cache : IteratorCache) (iterator : Int) :
    Except Fault IteratorCache :=
  if iterator = -1 then
    .error (.failedAssert ndebug "invalid iterator")
  else if iterator < 0 then
    .error (.failedAssert ndebug "cannot call remove on end iterators")
  else
    match cache.iteratorToObject[iterator.toNat]? with
    | none => .error (.failedAssert ndebug "iterator out of range")
    | some none => .ok cache
    | some (some address) =>
        .ok { cache with
          iteratorToObject := cache.iteratorToObject.set iterator.toNat none
          objectToIterator := cache.objectToIterator.erase address }

def add (cache : IteratorCache) (address : Address) : Int × IteratorCache :=
  match cache.objectToIterator[address]? with
  | some iterator => (iterator, cache)
  | none =>
      let iterator := toInt32 cache.iteratorToObject.length
      (iterator,
        { cache with
          iteratorToObject := cache.iteratorToObject ++ [some address]
          objectToIterator := cache.objectToIterator.insert address iterator })

@[simp]
theorem add_tableCache (cache : IteratorCache) (address : Address) :
    (cache.add address).2.tableCache = cache.tableCache := by
  unfold add
  split
  · rfl
  · rfl

@[simp]
theorem add_endIteratorToTable (cache : IteratorCache) (address : Address) :
    (cache.add address).2.endIteratorToTable = cache.endIteratorToTable := by
  unfold add
  split
  · rfl
  · rfl

/-! ## Cached tables -/

section CacheTable

variable (cache : IteratorCache) (tab : Int64) (tableAddress : Address)

/-- A table that is cached already stays as it is. -/
theorem cacheTable_tableCache (tested : Int64) :
    (cache.cacheTable tab tableAddress).2.tableCache[tested]? =
      if tab = tested ∧ cache.tableCache[tab]? = none then
        some (tableAddress, indexToEndIterator cache.endIteratorToTable.length)
      else cache.tableCache[tested]? := by
  unfold cacheTable
  cases cached : cache.tableCache[tab]? with
  | some entry => simp
  | none => simp only [map_insertIfNew, cached]

/-- A table that is in a cache keeps its address and its end iterator. -/
theorem cacheTable_entries {tested : Int64} {entry : Address × Int}
    (cached : cache.tableCache[tested]? = some entry) :
    (cache.cacheTable tab tableAddress).2.tableCache[tested]? = some entry := by
  rw [cacheTable_tableCache, if_neg]
  · exact cached
  · rintro ⟨rfl, isNew⟩
    rw [cached] at isNew
    cases isNew

@[simp]
theorem cacheTable_iteratorToObject :
    (cache.cacheTable tab tableAddress).2.iteratorToObject =
      cache.iteratorToObject := by
  unfold cacheTable
  split
  · rfl
  · rfl

@[simp]
theorem cacheTable_objectToIterator :
    (cache.cacheTable tab tableAddress).2.objectToIterator =
      cache.objectToIterator := by
  unfold cacheTable
  split
  · rfl
  · rfl

theorem cacheTable_cached :
    ∃ entry, (cache.cacheTable tab tableAddress).2.tableCache[tab]? =
      some entry := by
  rw [cacheTable_tableCache]
  cases cached : cache.tableCache[tab]? with
  | none => exact ⟨_, if_pos ⟨rfl, rfl⟩⟩
  | some entry => exact ⟨entry, by simp⟩

/-- The table gets the end iterator that is returned. -/
theorem cacheTable_endIterator :
    ∃ tableAddress', (cache.cacheTable tab tableAddress).2.tableCache[tab]? =
      some (tableAddress', (cache.cacheTable tab tableAddress).1) := by
  unfold cacheTable
  cases cached : cache.tableCache[tab]? with
  | some entry => exact ⟨entry.1, cached⟩
  | none =>
      refine ⟨tableAddress, ?_⟩
      simp only [map_insertIfNew, cached, and_self, if_true]

theorem cacheTable_endIteratorToTable :
    (cache.cacheTable tab tableAddress).2.endIteratorToTable =
      if cache.tableCache[tab]? = none then
        cache.endIteratorToTable ++ [tableAddress]
      else cache.endIteratorToTable := by
  unfold cacheTable
  cases cached : cache.tableCache[tab]? with
  | some entry => simp
  | none => simp

end CacheTable

/-- The end iterators lead back to the tables that they were made for. -/
def Charted (cache : IteratorCache) : Prop :=
  ∀ (tab : Int64) (entry : Address × Int), cache.tableCache[tab]? = some entry →
    ∃ index : Nat, entry.2 = indexToEndIterator index ∧
      cache.endIteratorToTable[index]? = some entry.1

theorem charted_empty : empty.Charted :=
  fun tab entry cached => by simp [empty] at cached

theorem Charted.cacheTable {cache : IteratorCache} (charted : cache.Charted)
    (tab : Int64) (tableAddress : Address) :
    (cache.cacheTable tab tableAddress).2.Charted := by
  intro tested entry cached
  rw [cacheTable_tableCache] at cached
  rw [cacheTable_endIteratorToTable]
  split at cached
  · rename_i isNew
    have isEntry := Option.some.inj cached
    rw [if_pos isNew.2, ← isEntry]
    exact ⟨cache.endIteratorToTable.length, by simp only,
      List.getElem?_concat_length⟩
  · obtain ⟨index, isEnd, isAddress⟩ := charted tested entry cached
    refine ⟨index, isEnd, ?_⟩
    split
    · rw [List.getElem?_append_left, isAddress]
      exact (List.getElem?_eq_some_iff.mp isAddress).1
    · exact isAddress

theorem indexToEndIterator_eq {index : Nat} (few : index < 2 ^ 31 - 1) :
    indexToEndIterator index = -(index + 2) := by
  rw [indexToEndIterator]
  exact toInt32_eq (by omega) (by omega)

/-- With fewer than 2^31 of them, the end iterators of cached tables are
negative. -/
theorem Charted.entry {cache : IteratorCache} (charted : cache.Charted)
    (few : cache.endIteratorToTable.length < 2 ^ 31) {tab : Int64}
    {entry : Address × Int} (cached : cache.tableCache[tab]? = some entry) :
    ∃ index : Nat, entry.2 = -(index + 2) ∧
      cache.endIteratorToTable[index]? = some entry.1 := by
  rcases charted tab entry cached with ⟨index, isEnd, isAddress⟩
  have inside := (List.getElem?_eq_some_iff.mp isAddress).1
  rw [indexToEndIterator_eq (by omega)] at isEnd
  exact ⟨index, isEnd, isAddress⟩

/-! ## The two directions agree -/

/-- An address is mapped to the one position that holds it. -/
structure Mirrored (cache : IteratorCache) : Prop where
  maps : ∀ (address : Address) (iterator : Int),
    cache.objectToIterator[address]? = some iterator ↔
      ∃ position : Nat, iterator = toInt32 position ∧
        cache.iteratorToObject[position]? = some (some address)
  unique : ∀ {address : Address} {left right : Nat},
    cache.iteratorToObject[left]? = some (some address) →
      cache.iteratorToObject[right]? = some (some address) → left = right

theorem mirrored_empty : empty.Mirrored :=
  ⟨fun address iterator => by simp [empty], fun held => by simp [empty] at held⟩

variable {cache : IteratorCache} {address : Address}

theorem Mirrored.cacheTable (mirrored : cache.Mirrored) (tab : Int64)
    (tableAddress : Address) :
    (cache.cacheTable tab tableAddress).2.Mirrored := by
  constructor
  · intro tested iterator
    rw [cacheTable_objectToIterator, cacheTable_iteratorToObject]
    exact mirrored.maps tested iterator
  · rw [cacheTable_iteratorToObject]
    exact mirrored.unique

theorem get_of_live {ndebug : Bool} {position : Nat}
    (live : cache.iteratorToObject[position]? = some (some address)) :
    cache.get ndebug position = .ok address := by
  unfold get
  rw [if_neg (by omega), if_neg (by omega), Int.toNat_natCast, live]

/-- What a successful `get` found. -/
theorem get_ok {ndebug : Bool} {iterator : Int}
    (success : cache.get ndebug iterator = .ok address) :
    ∃ position : Nat, iterator = position ∧
      cache.iteratorToObject[position]? = some (some address) := by
  unfold get at success
  split at success
  · cases success
  · split at success
    · cases success
    · refine ⟨iterator.toNat, by omega, ?_⟩
      split at success
      · cases success
      · cases success
      · cases success
        assumption

/-- An address that is in the cache keeps its iterator. -/
theorem Mirrored.add_of_live (mirrored : cache.Mirrored) {position : Nat}
    (live : cache.iteratorToObject[position]? = some (some address)) :
    cache.add address = (toInt32 position, cache) := by
  unfold add
  rw [(mirrored.maps address (toInt32 position)).mpr ⟨position, rfl, live⟩]

/-- The cache with a further address. -/
def pushed (cache : IteratorCache) (address : Address) : IteratorCache :=
  { cache with
    iteratorToObject := cache.iteratorToObject ++ [some address]
    objectToIterator := cache.objectToIterator.insert address
      (toInt32 cache.iteratorToObject.length) }

/-- No entry holds the address. -/
def Misses (cache : IteratorCache) (address : Address) : Prop :=
  ∀ position : Nat, cache.iteratorToObject[position]? ≠ some (some address)

/-- A new address gets the next integer. -/
theorem Mirrored.add_of_new (mirrored : cache.Mirrored)
    (isNew : cache.Misses address) :
    cache.add address =
      (toInt32 cache.iteratorToObject.length, cache.pushed address) := by
  have unmapped : cache.objectToIterator[address]? = none := by
    cases mapped : cache.objectToIterator[address]? with
    | none => rfl
    | some iterator =>
        obtain ⟨position, _, live⟩ := (mirrored.maps address iterator).mp mapped
        exact absurd live (isNew position)
  unfold add
  rw [unmapped]
  rfl

/-- The entries after an address was pushed. -/
theorem pushed_entry {position : Nat} {tested : Address} :
    (cache.pushed address).iteratorToObject[position]? = some (some tested) ↔
      cache.iteratorToObject[position]? = some (some tested) ∨
        position = cache.iteratorToObject.length ∧ tested = address := by
  simp only [pushed]
  rw [List.getElem?_append]
  split
  · rename_i inside
    constructor
    · exact Or.inl
    · rintro (held | ⟨isLast, _⟩)
      · exact held
      · omega
  · rename_i beyond
    have outside : cache.iteratorToObject[position]? = none :=
      List.getElem?_eq_none (by omega)
    rw [List.getElem?_singleton, outside]
    split
    · rename_i isLast
      simp only [Option.some.injEq, reduceCtorEq, false_or]
      exact ⟨fun same => ⟨by omega, same.symm⟩, fun held => held.2.symm⟩
    · rename_i notLast
      simp only [reduceCtorEq, false_or, false_iff]
      omega

theorem Mirrored.push (mirrored : cache.Mirrored)
    (isNew : cache.Misses address) :
    (cache.pushed address).Mirrored := by
  constructor
  · intro tested iterator
    simp only [pushed_entry]
    have inserted : (cache.pushed address).objectToIterator[tested]? =
        if address = tested then some (toInt32 cache.iteratorToObject.length)
        else cache.objectToIterator[tested]? := map_insert _ _ _ _
    rw [inserted]
    by_cases same : address = tested
    · subst same
      rw [if_pos rfl, Option.some.injEq]
      constructor
      · rintro rfl
        exact ⟨_, rfl, Or.inr ⟨rfl, rfl⟩⟩
      · rintro ⟨position, isIterator, held | ⟨isLast, _⟩⟩
        · exact absurd held (isNew position)
        · rw [isIterator, isLast]
    · rw [if_neg same, mirrored.maps tested iterator]
      refine exists_congr fun position => and_congr_right fun _ => ?_
      exact ⟨Or.inl, fun held => held.resolve_right
        fun isLast => same isLast.2.symm⟩
  · intro tested left right isLeft isRight
    rw [pushed_entry] at isLeft isRight
    rcases isLeft with isLeft | ⟨leftLast, rfl⟩
    · rcases isRight with isRight | ⟨_, rfl⟩
      · exact mirrored.unique isLeft isRight
      · exact absurd isLeft (isNew left)
    · rcases isRight with isRight | ⟨rightLast, _⟩
      · exact absurd isRight (isNew right)
      · rw [leftLast, rightLast]

/-- Adding an address makes no entry but one for the address. -/
theorem Mirrored.add_cases (mirrored : cache.Mirrored) (address : Address) :
    (cache.add address).2.Mirrored ∧
      ∀ (position : Nat) (tested : Address),
        (cache.add address).2.iteratorToObject[position]? =
            some (some tested) →
          cache.iteratorToObject[position]? = some (some tested) ∨
            tested = address := by
  by_cases live : ∃ position : Nat,
      cache.iteratorToObject[position]? = some (some address)
  · obtain ⟨position, isLive⟩ := live
    rw [mirrored.add_of_live isLive]
    exact ⟨mirrored, fun _ _ => Or.inl⟩
  · have isNew : cache.Misses address :=
      fun position isLive => live ⟨position, isLive⟩
    rw [mirrored.add_of_new isNew]
    refine ⟨mirrored.push isNew, ?_⟩
    intro position tested isLive
    rcases pushed_entry.mp isLive with wasLive | ⟨_, isAddress⟩
    · exact Or.inl wasLive
    · exact Or.inr isAddress

/-- With fewer than 2^31 entries, the iterator of an address is the position of
its entry. -/
theorem Mirrored.add_position (mirrored : cache.Mirrored) (address : Address)
    (few : cache.iteratorToObject.length < 2 ^ 31) :
    ∃ position : Nat, (cache.add address).1 = position ∧ position < 2 ^ 31 ∧
      (cache.add address).2.iteratorToObject[position]? =
        some (some address) := by
  by_cases live : ∃ position : Nat,
      cache.iteratorToObject[position]? = some (some address)
  · obtain ⟨position, isLive⟩ := live
    have inside := (List.getElem?_eq_some_iff.mp isLive).1
    have isPosition : toInt32 (position : Int) = position :=
      toInt32_eq (by omega) (by omega)
    rw [mirrored.add_of_live isLive, isPosition]
    exact ⟨position, rfl, by omega, isLive⟩
  · have isNew : cache.Misses address :=
      fun position isLive => live ⟨position, isLive⟩
    have isPosition : toInt32 (cache.iteratorToObject.length : Int) =
        cache.iteratorToObject.length := toInt32_eq (by omega) (by omega)
    rw [mirrored.add_of_new isNew, isPosition]
    exact ⟨cache.iteratorToObject.length, rfl, few,
      pushed_entry.mpr (Or.inr ⟨rfl, rfl⟩)⟩

/-- The entries stay, and at most one is new. -/
theorem add_iteratorToObject (cache : IteratorCache) (address : Address) :
    (cache.add address).2.iteratorToObject = cache.iteratorToObject ∨
      (cache.add address).2.iteratorToObject =
        cache.iteratorToObject ++ [some address] := by
  unfold add
  split
  · exact Or.inl rfl
  · exact Or.inr rfl

/-- The cache without the address at this position. -/
def cleared (cache : IteratorCache) (position : Nat) (address : Address) :
    IteratorCache :=
  { cache with
    iteratorToObject := cache.iteratorToObject.set position none
    objectToIterator := cache.objectToIterator.erase address }

theorem remove_of_live {ndebug : Bool} {position : Nat}
    (live : cache.iteratorToObject[position]? = some (some address)) :
    cache.remove ndebug position = .ok (cache.cleared position address) := by
  unfold remove
  rw [if_neg (by omega), if_neg (by omega), Int.toNat_natCast, live]
  rfl

/-- The entries after a position was cleared. -/
theorem cleared_entry {position tested : Nat} {other : Address} :
    (cache.cleared position address).iteratorToObject[tested]? =
        some (some other) ↔
      position ≠ tested ∧
        cache.iteratorToObject[tested]? = some (some other) := by
  simp only [cleared]
  rw [List.getElem?_set]
  split
  · rename_i same
    constructor
    · intro held
      split at held
      · cases held
      · cases held
    · exact fun held => absurd same held.1
  · rename_i different
    exact ⟨fun held => ⟨different, held⟩, fun held => held.2⟩

theorem Mirrored.clear (mirrored : cache.Mirrored) {position : Nat}
    (live : cache.iteratorToObject[position]? = some (some address)) :
    (cache.cleared position address).Mirrored := by
  constructor
  · intro tested iterator
    simp only [cleared_entry]
    have erased : (cache.cleared position address).objectToIterator[tested]? =
        if address = tested then none
        else cache.objectToIterator[tested]? := map_erase _ _ _
    rw [erased]
    by_cases same : address = tested
    · subst same
      rw [if_pos rfl]
      constructor
      · intro impossible
        cases impossible
      · rintro ⟨other, _, different, held⟩
        exact absurd (mirrored.unique live held) different
    · rw [if_neg same, mirrored.maps tested iterator]
      refine exists_congr fun other => and_congr_right fun _ => ?_
      refine ⟨fun held => ⟨?_, held⟩, fun held => held.2⟩
      rintro rfl
      rw [live, Option.some.injEq, Option.some.injEq] at held
      exact same held
  · intro tested left right isLeft isRight
    rw [cleared_entry] at isLeft isRight
    exact mirrored.unique isLeft.2 isRight.2

end IteratorCache

end StateDatabase
