import Mathlib
import StateDatabase.IteratorCache

/-!
# Runs of an iterator cache

The two directions of a cache agree after any calls.  A position whose entry
was removed stays empty, so `add` does not return it again.  A table keeps the
end iterator that it got first, and no other table gets the same one as long
as the numbers of the tables fit into an `int`.
-/

namespace StateDatabase

open Maps

/-- The calls on a cache.  A table is told apart by its id, an object by its
address. -/
inductive CacheCall where
  | cacheTable (id : Int64) (address : Address)
  | add (address : Address)
  | remove (iterator : Int)
  | get (iterator : Int)
deriving DecidableEq

namespace CacheCall

/-- A failed assertion ends the process. -/
def step (ndebug : Bool) (cache : IteratorCache) :
    CacheCall → Option IteratorCache
  | .cacheTable id address => some (cache.cacheTable id address).2
  | .add address => some (cache.add address).2
  | .remove iterator => (cache.remove ndebug iterator).toOption
  | .get iterator => (cache.get ndebug iterator).toOption.map fun _ => cache

/-- The integer that the call returns. -/
def returned (cache : IteratorCache) : CacheCall → Option Int
  | .cacheTable id address => some (cache.cacheTable id address).1
  | .add address => some (cache.add address).1
  | .remove _ => none
  | .get _ => none

/-- The call number `n` of the run is this call and returns this value. -/
def ReturnsAt (ndebug : Bool) (calls : List CacheCall) (n : Nat)
    (call : CacheCall) (value : Int) : Prop :=
  calls[n]? = some call ∧
    ∃ cache, Runs.run (step ndebug) IteratorCache.empty (calls.take n) =
      some cache ∧ call.returned cache = some value

end CacheCall

/-! ## End iterators -/

section EndIterators

open IteratorCache

theorem endIteratorToIndex_indexToEndIterator {index : Nat}
    (few : index < 2 ^ 31 - 2) :
    endIteratorToIndex (indexToEndIterator index) = .ok index := by
  have isIndex : (-(-((index : Int) + 2)) - 2).toNat = index := by omega
  rw [indexToEndIterator_eq (by omega), endIteratorToIndex, if_neg (by omega),
    isIndex]

theorem indexToEndIterator_endIteratorToIndex {endIterator : Int}
    (lower : -2 ^ 31 < endIterator) (upper : endIterator ≤ -2) :
    ∃ index : Nat, index < 2 ^ 31 - 2 ∧
      endIteratorToIndex endIterator = .ok index ∧
      indexToEndIterator index = endIterator := by
  have few : (-endIterator - 2).toNat < 2 ^ 31 - 2 := by omega
  refine ⟨(-endIterator - 2).toNat, few, ?_, ?_⟩
  · rw [endIteratorToIndex, if_neg (by omega)]
  · rw [indexToEndIterator_eq (by omega)]
    omega

end EndIterators

namespace IteratorCache

variable {cache next : IteratorCache} {ndebug : Bool} {call : CacheCall}

/-- There are fewer than 2^31 - 2 entries of each kind. -/
def Few (cache : IteratorCache) : Prop :=
  cache.iteratorToObject.length < 2 ^ 31 - 2 ∧
    cache.endIteratorToTable.length < 2 ^ 31 - 2

instance (cache : IteratorCache) : Decidable cache.Few :=
  inferInstanceAs (Decidable (_ ∧ _))

/-! ## What calls leave as it was -/

/-- Tables stay, the positions of the tables and of the objects stay, and an
empty position stays empty. -/
structure Extends (cache later : IteratorCache) : Prop where
  tables : ∀ (tab : Int64) (entry : Address × Int),
    cache.tableCache[tab]? = some entry → later.tableCache[tab]? = some entry
  ends : cache.endIteratorToTable <+: later.endIteratorToTable
  objects : cache.iteratorToObject.length ≤ later.iteratorToObject.length
  emptied : ∀ position : Nat, cache.iteratorToObject[position]? = some none →
    later.iteratorToObject[position]? = some none

theorem Extends.refl (cache : IteratorCache) : cache.Extends cache where
  tables := fun _ _ cached => cached
  ends := List.prefix_refl _
  objects := le_refl _
  emptied := fun _ isEmpty => isEmpty

theorem Extends.trans {later last : IteratorCache} (first : cache.Extends later)
    (second : later.Extends last) : cache.Extends last where
  tables := fun tab entry cached =>
    second.tables tab entry (first.tables tab entry cached)
  ends := first.ends.trans second.ends
  objects := first.objects.trans second.objects
  emptied := fun position isEmpty =>
    second.emptied position (first.emptied position isEmpty)

theorem Extends.few {later : IteratorCache} (extended : cache.Extends later)
    (few : later.Few) : cache.Few :=
  ⟨lt_of_le_of_lt extended.objects few.1,
    lt_of_le_of_lt extended.ends.length_le few.2⟩

theorem extends_cacheTable (cache : IteratorCache) (tab : Int64)
    (address : Address) :
    cache.Extends (cache.cacheTable tab address).2 where
  tables := by
    intro tested entry cached
    exact cacheTable_entries cache tab address cached
  ends := by
    rw [cacheTable_endIteratorToTable]
    split
    · exact List.prefix_append _ _
    · exact List.prefix_refl _
  objects := by rw [cacheTable_iteratorToObject]
  emptied := by
    rw [cacheTable_iteratorToObject]
    exact fun _ isEmpty => isEmpty

theorem extends_add (cache : IteratorCache) (address : Address) :
    cache.Extends (cache.add address).2 where
  tables := by
    rw [add_tableCache]
    exact fun _ _ cached => cached
  ends := by rw [add_endIteratorToTable]
  objects := by
    rcases cache.add_iteratorToObject address with same | longer
    · rw [same]
    · rw [longer, List.length_append]
      omega
  emptied := by
    intro position isEmpty
    have inside := (List.getElem?_eq_some_iff.mp isEmpty).1
    rcases cache.add_iteratorToObject address with same | longer
    · rw [same, isEmpty]
    · rw [longer, List.getElem?_append_left inside, isEmpty]

/-- `remove` leaves the position empty. -/
theorem remove_cases {iterator : Int}
    (success : cache.remove ndebug iterator = .ok next) :
    ∃ position : Nat, iterator = position ∧
      next.iteratorToObject[position]? = some none ∧
      (next = cache ∨ ∃ address,
        cache.iteratorToObject[position]? = some (some address) ∧
          next = cache.cleared position address) := by
  rw [remove] at success
  split at success
  · cases success
  · rename_i notInvalid
    split at success
    · cases success
    · rename_i notEnd
      have isPosition : iterator = iterator.toNat := by omega
      refine ⟨iterator.toNat, isPosition, ?_⟩
      cases entry : cache.iteratorToObject[iterator.toNat]? with
      | none =>
          simp only [entry] at success
          cases success
      | some found =>
          cases found with
          | none =>
              simp only [entry] at success
              cases success
              exact ⟨entry, Or.inl rfl⟩
          | some address =>
              simp only [entry] at success
              cases success
              have inside := (List.getElem?_eq_some_iff.mp entry).1
              refine ⟨?_, Or.inr ⟨address, rfl, rfl⟩⟩
              exact List.getElem?_set_self inside

theorem extends_cleared (position : Nat) (address : Address) :
    cache.Extends (cache.cleared position address) where
  tables := fun _ _ cached => cached
  ends := List.prefix_refl _
  objects := by
    rw [cleared]
    simp only [List.length_set, le_refl]
  emptied := by
    intro tested isEmpty
    have inside := (List.getElem?_eq_some_iff.mp isEmpty).1
    simp only [cleared, List.getElem?_set]
    split
    · rename_i same
      rw [if_pos (same ▸ inside)]
    · exact isEmpty

/-- Every call extends the cache. -/
theorem extends_step (stepped : call.step ndebug cache = some next) :
    cache.Extends next := by
  cases call with
  | cacheTable id address =>
      cases stepped
      exact extends_cacheTable cache id address
  | add address =>
      cases stepped
      exact extends_add cache address
  | remove iterator =>
      cases removed : cache.remove ndebug iterator with
      | error fault =>
          rw [CacheCall.step, removed] at stepped
          cases stepped
      | ok left =>
          rw [CacheCall.step, removed] at stepped
          cases stepped
          obtain ⟨position, _, _, same | ⟨address, _, isCleared⟩⟩ :=
            remove_cases removed
          · rw [same]
            exact Extends.refl cache
          · rw [isCleared]
            exact extends_cleared position address
  | get iterator =>
      rw [CacheCall.step] at stepped
      obtain ⟨_, _, same⟩ := Option.map_eq_some_iff.mp stepped
      rw [← same]
      exact Extends.refl cache

theorem extends_run {calls : List CacheCall} {later : IteratorCache}
    (reached : Runs.run (CacheCall.step ndebug) cache calls = some later) :
    cache.Extends later :=
  Runs.run_preserves (fun reached => cache.Extends reached)
    (fun _ _ _ extended _ stepped => extended.trans (extends_step stepped))
    (Extends.refl cache)
    (Runs.allowedFrom_of_forall (fun _ _ => trivial) calls cache) reached

/-! ## The invariant -/

/-- The two directions agree, the end iterators lead to the tables, and no two
tables have the same end iterator. -/
structure Orderly (cache : IteratorCache) : Prop where
  mirrored : cache.Mirrored
  charted : cache.Charted
  distinct : ∀ (left right : Int64) (entry other : Address × Int),
    cache.tableCache[left]? = some entry →
      cache.tableCache[right]? = some other → entry.2 = other.2 → left = right

theorem orderly_empty : empty.Orderly where
  mirrored := mirrored_empty
  charted := charted_empty
  distinct := by
    intro left right entry other cached
    have missing : empty.tableCache[left]? = none :=
      Std.ExtTreeMap.getElem?_empty
    rw [missing] at cached
    cases cached

/-- A table that is new gets an end iterator that no table has. -/
theorem Charted.endIterator_ne (charted : cache.Charted)
    (few : cache.endIteratorToTable.length < 2 ^ 31 - 2) {tab : Int64}
    {entry : Address × Int} (cached : cache.tableCache[tab]? = some entry) :
    entry.2 ≠ indexToEndIterator cache.endIteratorToTable.length := by
  intro same
  obtain ⟨index, isEnd, isAddress⟩ := charted tab entry cached
  have inside := (List.getElem?_eq_some_iff.mp isAddress).1
  rw [isEnd, indexToEndIterator_eq (by omega),
    indexToEndIterator_eq (by omega)] at same
  omega

theorem Orderly.cacheTable (orderly : cache.Orderly)
    (few : cache.endIteratorToTable.length < 2 ^ 31 - 2) (tab : Int64)
    (address : Address) : (cache.cacheTable tab address).2.Orderly where
  mirrored := orderly.mirrored.cacheTable tab address
  charted := orderly.charted.cacheTable tab address
  distinct := by
    intro left right entry other isLeft isRight same
    rw [cacheTable_tableCache] at isLeft isRight
    split at isLeft
    · rename_i leftNew
      cases isLeft
      split at isRight
      · rename_i rightNew
        rw [← leftNew.1, rightNew.1]
      · have isOld := orderly.charted.endIterator_ne few isRight
        dsimp only at same
        exact (isOld same.symm).elim
    · split at isRight
      · cases isRight
        have isOld := orderly.charted.endIterator_ne few isLeft
        dsimp only at same
        exact (isOld same).elim
      · exact orderly.distinct left right entry other isLeft isRight same

/-- Calls on objects do not touch the tables. -/
theorem Orderly.of_sameTables (orderly : cache.Orderly)
    (mirrored : next.Mirrored) (tables : next.tableCache = cache.tableCache)
    (ends : next.endIteratorToTable = cache.endIteratorToTable) :
    next.Orderly where
  mirrored := mirrored
  charted := by
    intro tab entry cached
    rw [tables] at cached
    rw [ends]
    exact orderly.charted tab entry cached
  distinct := by
    rw [tables]
    exact orderly.distinct

theorem Orderly.step (orderly : cache.Orderly) (few : next.Few)
    (stepped : call.step ndebug cache = some next) : next.Orderly := by
  have fewBefore := (extends_step stepped).few few
  cases call with
  | cacheTable id address =>
      have isNext : (cache.cacheTable id address).2 = next :=
        Option.some.inj stepped
      rw [← isNext]
      exact orderly.cacheTable fewBefore.2 id address
  | add address =>
      have isNext : (cache.add address).2 = next := Option.some.inj stepped
      rw [← isNext]
      exact orderly.of_sameTables (orderly.mirrored.add_cases address).1
        (add_tableCache cache address) (add_endIteratorToTable cache address)
  | remove iterator =>
      cases removed : cache.remove ndebug iterator with
      | error fault =>
          rw [CacheCall.step, removed] at stepped
          cases stepped
      | ok left =>
          rw [CacheCall.step, removed] at stepped
          cases stepped
          obtain ⟨position, _, _, same | ⟨address, live, isCleared⟩⟩ :=
            remove_cases removed
          · rw [same]
            exact orderly
          · rw [isCleared]
            exact orderly.of_sameTables (orderly.mirrored.clear live) rfl rfl
  | get iterator =>
      rw [CacheCall.step] at stepped
      obtain ⟨_, _, same⟩ := Option.map_eq_some_iff.mp stepped
      rw [← same]
      exact orderly

/-- A cache with few entries that calls leave behind. -/
theorem orderly_run {calls : List CacheCall} {final : IteratorCache} :
    ∀ {cache : IteratorCache}, cache.Orderly →
      Runs.run (CacheCall.step ndebug) cache calls = some final → final.Few →
        final.Orderly := by
  induction calls with
  | nil =>
      intro cache orderly reached few
      cases reached
      exact orderly
  | cons call rest inductionHypothesis =>
      intro cache orderly reached few
      rw [Runs.run_cons] at reached
      obtain ⟨next, stepped, finished⟩ := Option.bind_eq_some_iff.mp reached
      have nextFew := (extends_run finished).few few
      exact inductionHypothesis (orderly.step nextFew stepped) finished few

/-- With few entries an object has the integer of its position. -/
theorem Mirrored.maps_iff (mirrored : cache.Mirrored) (few : cache.Few)
    (address : Address) (iterator : Int) :
    cache.objectToIterator[address]? = some iterator ↔
      0 ≤ iterator ∧
        cache.iteratorToObject[iterator.toNat]? = some (some address) := by
  have isPosition : ∀ position : Nat,
      cache.iteratorToObject[position]? = some (some address) →
        toInt32 position = position := by
    intro position live
    have inside := (List.getElem?_eq_some_iff.mp live).1
    have bound := few.1
    exact toInt32_eq (by omega) (by omega)
  rw [mirrored.maps address iterator]
  constructor
  · rintro ⟨position, isIterator, live⟩
    rw [isPosition position live] at isIterator
    rw [isIterator, Int.toNat_natCast]
    exact ⟨Int.natCast_nonneg position, live⟩
  · rintro ⟨nonneg, live⟩
    refine ⟨iterator.toNat, ?_, live⟩
    rw [isPosition _ live]
    omega

end IteratorCache

/-! ## What a run returns -/

namespace CacheCall

open IteratorCache

variable {ndebug : Bool} {calls : List CacheCall} {final : IteratorCache}

/-- The states between the calls. -/
theorem run_take (reached : Runs.run (step ndebug) empty calls = some final)
    (n : Nat) :
    ∃ cache, Runs.run (step ndebug) empty (calls.take n) = some cache ∧
      Runs.run (step ndebug) cache (calls.drop n) = some final := by
  rw [← List.take_append_drop n calls, Runs.run_append] at reached
  exact Option.bind_eq_some_iff.mp reached

theorem step_take {n : Nat} {call : CacheCall} {cache next : IteratorCache}
    (isCall : calls[n]? = some call)
    (before : Runs.run (step ndebug) empty (calls.take n) = some cache)
    (after : Runs.run (step ndebug) empty (calls.take (n + 1)) = some next) :
    call.step ndebug cache = some next := by
  rw [List.take_add_one, isCall, Runs.run_append, before] at after
  change (call.step ndebug cache).bind some = some next at after
  rw [Option.bind_fun_some] at after
  exact after

theorem extends_take {m n : Nat} {cache later : IteratorCache} (order : m ≤ n)
    (first : Runs.run (step ndebug) empty (calls.take m) = some cache)
    (second : Runs.run (step ndebug) empty (calls.take n) = some later) :
    cache.Extends later := by
  have split : calls.take n = calls.take m ++ (calls.take n).drop m := by
    have prefixed := List.take_append_drop m (calls.take n)
    rw [List.take_take, Nat.min_eq_left order] at prefixed
    exact prefixed.symm
  rw [split, Runs.run_append, first] at second
  exact extends_run second

/-- A table is cached with the end iterator that is returned. -/
theorem cached_of_returnsAt (reached : Runs.run (step ndebug) empty calls =
      some final) {n : Nat} {tab : Int64} {address : Address} {value : Int}
    (returns : ReturnsAt ndebug calls n (.cacheTable tab address) value) :
    ∃ cachedAddress,
      final.tableCache[tab]? = some (cachedAddress, value) := by
  obtain ⟨isCall, cache, before, isValue⟩ := returns
  obtain ⟨next, after, finished⟩ := run_take reached (n + 1)
  have stepped := step_take isCall before after
  have isNext : (cache.cacheTable tab address).2 = next :=
    Option.some.inj stepped
  have sameValue : (cache.cacheTable tab address).1 = value :=
    Option.some.inj isValue
  obtain ⟨cachedAddress, cached⟩ := cache.cacheTable_endIterator tab address
  rw [isNext, sameValue] at cached
  exact ⟨cachedAddress, (extends_run finished).tables _ _ cached⟩

/-- Only `cache_table` with its id caches a table. -/
theorem not_cached_of_not_called {tab : Int64} :
    ∀ {calls : List CacheCall} {cache final : IteratorCache},
      cache.tableCache[tab]? = none →
        (∀ address, CacheCall.cacheTable tab address ∉ calls) →
        Runs.run (step ndebug) cache calls = some final →
          final.tableCache[tab]? = none := by
  intro calls
  induction calls with
  | nil =>
      intro cache final missing _ reached
      cases reached
      exact missing
  | cons call rest inductionHypothesis =>
      intro cache final missing notCalled reached
      rw [Runs.run_cons] at reached
      obtain ⟨next, stepped, finished⟩ := Option.bind_eq_some_iff.mp reached
      have restNotCalled : ∀ address,
          CacheCall.cacheTable tab address ∉ rest := fun address member =>
        notCalled address (List.mem_cons_of_mem call member)
      apply inductionHypothesis _ restNotCalled finished
      cases call with
      | cacheTable id address =>
          have isNext : (cache.cacheTable id address).2 = next :=
            Option.some.inj stepped
          have different : id ≠ tab := by
            intro same
            apply notCalled address
            rw [same]
            exact List.mem_cons_self
          rw [← isNext, cacheTable_tableCache, if_neg fun both =>
            different both.1]
          exact missing
      | add address =>
          have isNext : (cache.add address).2 = next := Option.some.inj stepped
          rw [← isNext, add_tableCache]
          exact missing
      | remove iterator =>
          cases removed : cache.remove ndebug iterator with
          | error fault =>
              rw [step, removed] at stepped
              cases stepped
          | ok left =>
              rw [step, removed] at stepped
              cases stepped
              obtain ⟨position, _, _, same | ⟨address, _, isCleared⟩⟩ :=
                remove_cases removed
              · rw [same]
                exact missing
              · rw [isCleared]
                exact missing
      | get iterator =>
          rw [step] at stepped
          obtain ⟨_, _, same⟩ := Option.map_eq_some_iff.mp stepped
          rw [← same]
          exact missing

/-- The first call of `cache_table` for an id decides the address. -/
theorem cached_of_first (reached : Runs.run (step ndebug) empty calls =
      some final) {n : Nat} {tab : Int64} {address : Address} {value : Int}
    (returns : ReturnsAt ndebug calls n (.cacheTable tab address) value)
    (isFirst : ∀ other, CacheCall.cacheTable tab other ∉ calls.take n) :
    final.tableCache[tab]? = some (address, value) := by
  obtain ⟨isCall, cache, before, isValue⟩ := returns
  obtain ⟨next, after, finished⟩ := run_take reached (n + 1)
  have stepped := step_take isCall before after
  have missing : cache.tableCache[tab]? = none :=
    not_cached_of_not_called Std.ExtTreeMap.getElem?_empty isFirst before
  have isNext : (cache.cacheTable tab address).2 = next :=
    Option.some.inj stepped
  have sameValue : (cache.cacheTable tab address).1 = value :=
    Option.some.inj isValue
  have cached : next.tableCache[tab]? = some (address, value) := by
    obtain ⟨cachedAddress, entry⟩ := cache.cacheTable_endIterator tab address
    have isAddress := cache.cacheTable_tableCache tab address tab
    rw [if_pos ⟨rfl, missing⟩, entry, Option.some.injEq, Prod.mk.injEq]
      at isAddress
    rw [← isNext, entry, sameValue, isAddress.1]
  exact (extends_run finished).tables _ _ cached

/-- An integer that was passed to `remove` is not returned by `add`. -/
theorem add_ne_removed (reached : Runs.run (step ndebug) empty calls =
      some final) (few : final.Few) {m n : Nat} (order : m < n)
    {iterator value : Int} {address : Address}
    (removes : calls[m]? = some (.remove iterator))
    (returns : ReturnsAt ndebug calls n (.add address) value) :
    value ≠ iterator := by
  obtain ⟨isCall, cache, before, isValue⟩ := returns
  obtain ⟨earlier, beforeRemove, _⟩ := run_take reached m
  obtain ⟨removedCache, afterRemove, _⟩ := run_take reached (m + 1)
  have removed := step_take removes beforeRemove afterRemove
  have emptied : ∃ position : Nat, iterator = position ∧
      removedCache.iteratorToObject[position]? = some none := by
    cases success : earlier.remove ndebug iterator with
    | error fault =>
        rw [step, success] at removed
        cases removed
    | ok left =>
        rw [step, success] at removed
        cases removed
        obtain ⟨position, isPosition, isEmpty, _⟩ := remove_cases success
        exact ⟨position, isPosition, isEmpty⟩
  obtain ⟨position, isPosition, isEmpty⟩ := emptied
  have stillEmpty := (extends_take order afterRemove before).emptied
    position isEmpty
  -- the position that is returned holds the address
  obtain ⟨next, after, finished⟩ := run_take reached (n + 1)
  have fewBefore : cache.Few :=
    (extends_take (Nat.le_succ n) before after).few
      ((extends_run finished).few few)
  have orderly := orderly_run orderly_empty before fewBefore
  have bound := fewBefore.1
  obtain ⟨added, isAdded, _, live⟩ :=
    orderly.mirrored.add_position address (by omega)
  have sameValue : (cache.add address).1 = value := Option.some.inj isValue
  intro same
  have samePosition : added = position := by
    rw [sameValue, same, isPosition] at isAdded
    omega
  have emptyAfter := (extends_add cache address).emptied position stillEmpty
  rw [samePosition, emptyAfter] at live
  cases live

end CacheCall

/-! ## The partial bijection -/

/-- What a run of calls has returned, and the cache that it leaves. -/
structure IteratorCache.PartialBijection (ndebug : Bool)
    (calls : List CacheCall) (cache : IteratorCache) : Prop where
  objects : ∀ (address : Address) (iterator : Int),
    cache.objectToIterator[address]? = some iterator ↔
      0 ≤ iterator ∧
        cache.iteratorToObject[iterator.toNat]? = some (some address)
  notReused : ∀ (m n : Nat) (iterator value : Int) (address : Address), m < n →
    calls[m]? = some (.remove iterator) →
      CacheCall.ReturnsAt ndebug calls n (.add address) value →
        value ≠ iterator
  below : ∀ (n : Nat) (tab : Int64) (address : Address) (value : Int),
    CacheCall.ReturnsAt ndebug calls n (.cacheTable tab address) value →
      value ≤ -2
  distinct : ∀ (m n : Nat) (left right : Int64) (address other : Address)
    (value value' : Int),
    CacheCall.ReturnsAt ndebug calls m (.cacheTable left address) value →
      CacheCall.ReturnsAt ndebug calls n (.cacheTable right other) value' →
        (value = value' ↔ left = right)
  firstTable : ∀ (n : Nat) (tab : Int64) (address : Address) (value : Int),
    CacheCall.ReturnsAt ndebug calls n (.cacheTable tab address) value →
      (∀ other, CacheCall.cacheTable tab other ∉ calls.take n) →
        cache.findTableByEndIterator ndebug value = .ok (some address)

/-- The object map and the object vector are inverse to each other, no integer
is given out again after its object was removed, the end iterators tell the
tables apart and lead to the tables, and positions and end iterators determine
each other. -/
theorem iteratorCache_partialBijection (ndebug : Bool)
    (calls : List CacheCall) (cache : IteratorCache)
    (reached : Runs.run (CacheCall.step ndebug) IteratorCache.empty calls =
      some cache)
    (few : cache.Few) :
    IteratorCache.PartialBijection ndebug calls cache ∧
      (∀ index : Nat, index < 2 ^ 31 - 2 →
        IteratorCache.endIteratorToIndex
          (IteratorCache.indexToEndIterator index) = .ok index) ∧
      ∀ endIterator : Int, -2 ^ 31 < endIterator → endIterator ≤ -2 →
        ∃ index : Nat, index < 2 ^ 31 - 2 ∧
          IteratorCache.endIteratorToIndex endIterator = .ok index ∧
          IteratorCache.indexToEndIterator index = endIterator := by
  have orderly := IteratorCache.orderly_run IteratorCache.orderly_empty reached
    few
  have isEnd : ∀ {tab : Int64} {entry : Address × Int},
      cache.tableCache[tab]? = some entry →
        ∃ index : Nat, index < 2 ^ 31 - 2 ∧
          entry.2 = IteratorCache.indexToEndIterator index ∧
          cache.endIteratorToTable[index]? = some entry.1 := by
    intro tab entry cached
    obtain ⟨index, isEndIterator, isAddress⟩ :=
      orderly.charted tab entry cached
    have inside := (List.getElem?_eq_some_iff.mp isAddress).1
    exact ⟨index, lt_trans inside few.2, isEndIterator, isAddress⟩
  refine ⟨?_, fun _ => endIteratorToIndex_indexToEndIterator,
    fun _ => indexToEndIterator_endIteratorToIndex⟩
  constructor
  · exact orderly.mirrored.maps_iff few
  · intro m n iterator value address order removes returns
    exact CacheCall.add_ne_removed reached few order removes returns
  · intro n tab address value returns
    obtain ⟨_, cached⟩ := CacheCall.cached_of_returnsAt reached returns
    obtain ⟨index, small, isEndIterator, _⟩ := isEnd cached
    rw [IteratorCache.indexToEndIterator_eq (by omega)] at isEndIterator
    dsimp only at isEndIterator
    omega
  · intro m n left right address other value value' returns returns'
    obtain ⟨_, cached⟩ := CacheCall.cached_of_returnsAt reached returns
    obtain ⟨_, cached'⟩ := CacheCall.cached_of_returnsAt reached returns'
    constructor
    · intro same
      exact orderly.distinct left right _ _ cached cached' same
    · intro same
      rw [same, cached', Option.some.injEq, Prod.mk.injEq] at cached
      exact cached.2.symm
  · intro n tab address value returns isFirst
    have cached := CacheCall.cached_of_first reached returns isFirst
    obtain ⟨index, small, isEndIterator, isAddress⟩ := isEnd cached
    dsimp only at isEndIterator isAddress
    have isIndex := endIteratorToIndex_indexToEndIterator small
    rw [← isEndIterator] at isIndex
    have isNegative : value = -((index : Int) + 2) := by
      rw [isEndIterator]
      exact IteratorCache.indexToEndIterator_eq (by omega)
    rw [IteratorCache.findTableByEndIterator, if_pos (by omega), isIndex]
    change Except.ok cache.endIteratorToTable[index]? = _
    rw [isAddress]

/-- Two tables, and an object whose address comes back after it was removed. -/
def cacheCalls : List CacheCall :=
  [.cacheTable 5 16, .add 32, .add 48, .get 1, .remove 0, .add 32,
    .cacheTable 6 64, .cacheTable 5 80, .get 2]

theorem iteratorCache_partialBijection_reusedAddress :
    ∃ cache, Runs.run (CacheCall.step false) IteratorCache.empty cacheCalls =
        some cache ∧
      IteratorCache.PartialBijection false cacheCalls cache ∧
      CacheCall.ReturnsAt false cacheCalls 5 (.add 32) 2 := by
  have ends : (Runs.run (CacheCall.step false) IteratorCache.empty
      cacheCalls).any (fun cache => decide cache.Few) = true := by
    decide +kernel
  have returns : (Runs.run (CacheCall.step false) IteratorCache.empty
      (cacheCalls.take 5)).any (fun cache => decide
        ((CacheCall.add 32).returned cache = some 2)) = true := by
    decide +kernel
  obtain ⟨cache, reached, few⟩ := (Option.any_eq_true _ _).mp ends
  obtain ⟨earlier, before, isTwo⟩ := (Option.any_eq_true _ _).mp returns
  have bijection := iteratorCache_partialBijection false cacheCalls cache
    reached (of_decide_eq_true few)
  exact ⟨cache, reached, bijection.1, rfl, earlier, before,
    of_decide_eq_true isTwo⟩

end StateDatabase
