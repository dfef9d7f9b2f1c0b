import Mathlib
import StateDatabase.StoreRefinement

/-!
# Iterators do not depend on the memory

The iterators that an `eos_db` returns, end iterators included, by the names of
what they are iterators of.  Which number a row or a table gets follows from the
calls alone.  So two databases that get other memory, with other addresses,
other ids of tables and other ids of index rows, return the same iterators and
answers for the same calls.
-/

namespace StateDatabase

open Programs GenericIndex EosDb

/-- The positions of rows and tables in the caches. -/
structure Cursors where
  count : RowTable → Nat
  position : RowTable → StoreKey → Option Nat
  /-- the tables of `keyval_cache` -/
  ends : Nat
  endOf : TableName → Option Nat

namespace Cursors

def empty : Cursors :=
  { count := fun _ => 0
    position := fun _ _ => none
    ends := 0
    endOf := fun _ => none }

variable (cursors : Cursors)

/-- A table that has no end iterator gets the next one. -/
def withTable (name : TableName) : Cursors :=
  match cursors.endOf name with
  | some _ => cursors
  | none =>
      { cursors with
        ends := cursors.ends + 1
        endOf := Function.update cursors.endOf name (some cursors.ends) }

/-- A row that has no iterator gets the next one. -/
def withRow (r : RowTable) (key : StoreKey) : Cursors :=
  match cursors.position r key with
  | some _ => cursors
  | none =>
      { cursors with
        count := Function.update cursors.count r (cursors.count r + 1)
        position := Function.update cursors.position r
          (Function.update (cursors.position r) key
            (some (cursors.count r))) }

def withoutRow (r : RowTable) (key : StoreKey) : Cursors :=
  { cursors with
    position := Function.update cursors.position r
      (Function.update (cursors.position r) key none) }

/-- Tables that are gone have no end iterators. -/
def among (store : ContractStore) : Cursors :=
  { cursors with
    endOf := fun name =>
      if (store.tables name).isSome then cursors.endOf name else none }

def endIterator (name : TableName) : Int :=
  -(((cursors.endOf name).getD cursors.ends : Nat) + 2)

def iterator (r : RowTable) (key : StoreKey) : Int :=
  ((cursors.position r key).getD (cursors.count r) : Nat)

open Classical in
/-- The positions that a call adds or removes. -/
noncomputable def moved (store : ContractStore) : StoreCall → Cursors
  | .findRow key =>
      if (store.tables key.1).isNone then cursors
      else if (store.rows .keyValue key).isNone then cursors.withTable key.1
      else (cursors.withTable key.1).withRow .keyValue key
  | .storeRow r key _ =>
      if store.Taken r key then cursors
      else if r = .keyValue then (cursors.withTable key.1).withRow r key
      else cursors.withRow r key
  | .removeRow r key => cursors.withoutRow r key
  | _ => cursors

noncomputable def after (ndebug : Bool) (store : ContractStore)
    (call : StoreCall) : Cursors :=
  (cursors.moved store call).among (call.run ndebug store).2

open Classical in
/-- The iterator that a call returns. -/
noncomputable def number (store : ContractStore) : StoreCall → Option Int
  | .findRow key =>
      if (store.tables key.1).isNone then some (-1)
      else if (store.rows .keyValue key).isNone then
        some (cursors.endIterator key.1)
      else some (cursors.iterator .keyValue key)
  | .storeRow r key _ =>
      if store.Taken r key then none else some (cursors.iterator r key)
  | _ => none

end Cursors

namespace EosDb

variable {eos final : EosDb} {used : List Int64} {r : RowTable}
  {name : TableName} {key : StoreKey} {gone : Option (RowTable × Int)}
  {store : ContractStore} {cursors : Cursors} {position : Nat}

/-- The caches have the rows at these positions. -/
structure TracksRows (eos : EosDb) (cursors : Cursors) : Prop where
  count : ∀ r, (eos.caches r).iteratorToObject.length = cursors.count r
  position : ∀ r key (position : Nat),
    cursors.position r key = some position ↔ eos.Shows r position key

/-- `keyval_cache` has the tables at these positions. -/
structure TracksEnds (eos : EosDb) (cursors : Cursors) : Prop where
  ends : (eos.caches .keyValue).endIteratorToTable.length = cursors.ends
  endOf : ∀ name (index : Nat), cursors.endOf name = some index ↔
    ∃ tab entry, Named eos.db.rows tab name ∧
      (eos.caches .keyValue).tableCache[tab]? = some entry ∧
      entry.2 = -(index + 2)

/-! ## Rows -/

/-- An iterator shows one key. -/
theorem Shows.key_unique {iterator : Int} {other : StoreKey}
    (consistent : eos.Consistent used) (shows : eos.Shows r iterator key)
    (otherShows : eos.Shows r iterator other) : key = other := by
  rcases shows with ⟨position, id, row, isPosition, held, found, hasKey⟩
  rcases otherShows with
    ⟨otherPosition, otherId, otherRow, isOther, otherHeld, otherFound, otherKey⟩
  have same : position = otherPosition := by omega
  subst same
  rw [held, Option.some.injEq, Option.some.injEq] at otherHeld
  have sameId : id = otherId := by
    apply consistent.apart r.type
    · rw [found]
      exact Option.some_ne_none row
    · rw [otherFound]
      exact Option.some_ne_none otherRow
    · exact otherHeld
  subst sameId
  rw [found, Option.some.injEq] at otherFound
  subst otherFound
  exact hasKey.key_unique otherKey

theorem Shows.held_lt (shows : eos.Shows r position key) :
    position < (eos.caches r).iteratorToObject.length := by
  rcases shows with ⟨other, id, row, isPosition, held, _, _⟩
  have inside := (List.getElem?_eq_some_iff.mp held).1
  omega

/-- A key has one iterator. -/
theorem Shows.position_unique {other : Nat} (consistent : eos.Consistent used)
    (shows : eos.Shows r position key) (otherShows : eos.Shows r other key) :
    position = other := by
  rcases shows with ⟨left, id, row, isPosition, held, found, hasKey⟩
  rcases otherShows with
    ⟨right, otherId, otherRow, isOther, otherHeld, otherFound, otherKey⟩
  have sameId := hasKey.id_unique otherKey found otherFound
  rw [← sameId] at otherHeld
  have same := (consistent.caches r).mirrored.unique held otherHeld
  omega

/-- Where the entry of an iterator was there before, it shows what it showed. -/
theorem Advanced.shows_iff (advanced : eos.Advanced used gone store final)
    (consistent : eos.Consistent used)
    (notGone : gone ≠ some (r, (position : Int)))
    (held : ∀ address,
      (final.caches r).iteratorToObject[position]? = some (some address) →
        (eos.caches r).iteratorToObject[position]? = some (some address)) :
    final.Shows r position key ↔ eos.Shows r position key := by
  constructor
  · intro shows
    rcases shows with ⟨other, id, row, isPosition, isHeld, found, hasKey⟩
    have same : position = other := by omega
    subst same
    have before := held _ isHeld
    rcases consistent.holds before with ⟨oldId, oldRow, tableObj, holds⟩
    rcases consistent.hasKey holds.found with ⟨oldKey, hasOldKey⟩
    have showed : eos.Shows r position oldKey :=
      ⟨position, oldId, oldRow, rfl, by rw [holds.isAddress]; exact before,
        holds.found, hasOldKey⟩
    have stillShows := advanced.shows _ _ _ showed notGone
    have sameKey := Shows.key_unique advanced.consistent
      ⟨position, id, row, rfl, isHeld, found, hasKey⟩ stillShows
    rw [sameKey]
    exact showed
  · exact fun shows => advanced.shows _ _ _ shows notGone

/-- The caches are as they were. -/
theorem TracksRows.kept (tracks : eos.TracksRows cursors)
    (advanced : eos.Advanced used none store final)
    (consistent : eos.Consistent used)
    (same : ∀ r, (final.caches r).iteratorToObject =
      (eos.caches r).iteratorToObject) :
    final.TracksRows (cursors.among store) where
  count := by
    intro r
    rw [same]
    exact tracks.count r
  position := by
    intro r key position
    have shows : final.Shows r position key ↔ eos.Shows r position key :=
      advanced.shows_iff consistent (by simp) fun address isHeld => by
        rw [← same]
        exact isHeld
    rw [shows]
    exact tracks.position r key position

/-- A row that no iterator showed is the last one of its cache. -/
theorem TracksRows.pushed (address : Address)
    (tracks : eos.TracksRows cursors)
    (advanced : eos.Advanced used none store final)
    (consistent : eos.Consistent used)
    (isPushed : ∀ tested, (final.caches tested).iteratorToObject =
      if tested = r then (eos.caches r).iteratorToObject ++ [some address]
      else (eos.caches tested).iteratorToObject)
    (shows : final.Shows r (cursors.count r) key) :
    final.TracksRows ((cursors.withRow r key).among store) ∧
      cursors.iterator r key = cursors.count r := by
  have old : ∀ tested (position : Nat) testedKey,
      (tested = r → position < cursors.count r) →
        (final.Shows tested position testedKey ↔
          eos.Shows tested position testedKey) := by
    intro tested position testedKey inside
    apply advanced.shows_iff consistent (by simp)
    intro other isHeld
    rw [isPushed] at isHeld
    split at isHeld
    · rename_i same
      subst same
      rw [List.getElem?_append_left] at isHeld
      · exact isHeld
      · rw [tracks.count]
        exact inside rfl
    · exact isHeld
  -- only the new iterator shows the new row
  have isNew : cursors.position r key = none := by
    rw [Option.eq_none_iff_forall_ne_some]
    intro position before
    have showed := (tracks.position r key position).mp before
    have inside := showed.held_lt
    rw [tracks.count] at inside
    have stillShows := (old r position key fun _ => inside).mpr showed
    have samePosition := Shows.position_unique advanced.consistent shows
      stillShows
    omega
  constructor
  · constructor
    · intro tested
      rw [isPushed, Cursors.withRow, isNew]
      by_cases same : tested = r
      · subst same
        simp [Cursors.among, tracks.count]
      · simp [Cursors.among, same, tracks.count]
    · intro tested testedKey position
      rw [Cursors.withRow, isNew]
      by_cases same : tested = r
      · subst same
        simp only [Cursors.among, Function.update_self]
        by_cases sameKey : testedKey = key
        · subst sameKey
          rw [Function.update_self, Option.some.injEq]
          constructor
          · intro isLast
            rw [← isLast]
            exact shows
          · exact fun other =>
              Shows.position_unique advanced.consistent shows other
        · rw [Function.update_of_ne sameKey, tracks.position]
          constructor
          · exact fun showed => advanced.shows _ _ _ showed (by simp)
          · intro showed
            have notLast : position ≠ cursors.count tested := by
              intro isLast
              subst isLast
              exact sameKey
                (Shows.key_unique advanced.consistent showed shows)
            have isHeld := showed.held_lt
            rw [isPushed, if_pos rfl, List.length_append, tracks.count,
              List.length_singleton] at isHeld
            exact (old tested position testedKey fun _ => by omega).mp showed
      · simp only [Cursors.among, Function.update_of_ne same]
        rw [tracks.position]
        exact (old tested position testedKey fun isRow =>
          absurd isRow same).symm
  · rw [Cursors.iterator, isNew, Option.getD_none]

/-- A row whose iterator is known keeps it. -/
theorem TracksRows.iterator (tracks : eos.TracksRows cursors)
    (shows : eos.Shows r position key) :
    cursors.withRow r key = cursors ∧ cursors.iterator r key = position := by
  have known := (tracks.position r key position).mpr shows
  constructor
  · rw [Cursors.withRow, known]
  · rw [Cursors.iterator, known, Option.getD_some]

/-- The iterator of a removed row shows nothing. -/
theorem TracksRows.cleared {address : Address}
    (tracks : eos.TracksRows cursors)
    (advanced : eos.Advanced used (some (r, (position : Int))) store final)
    (consistent : eos.Consistent used)
    (isCaches : final.caches = Function.update eos.caches r
      ((eos.caches r).cleared position address))
    (showed : eos.Shows r position key) :
    final.TracksRows ((cursors.withoutRow r key).among store) where
  count := by
    intro tested
    rw [isCaches]
    by_cases same : tested = r
    · subst same
      rw [Function.update_self]
      simp [IteratorCache.cleared, Cursors.withoutRow, Cursors.among,
        tracks.count]
    · rw [Function.update_of_ne same]
      exact tracks.count tested
  position := by
    intro tested testedKey other
    have old : (tested = r → other ≠ position) →
        (final.Shows tested other testedKey ↔
          eos.Shows tested other testedKey) := by
      intro different
      apply advanced.shows_iff consistent
      · intro isGone
        simp only [Option.some.injEq, Prod.mk.injEq, Int.natCast_inj] at isGone
        exact different isGone.1.symm isGone.2.symm
      · intro isAddress isHeld
        rw [isCaches] at isHeld
        by_cases same : tested = r
        · subst same
          rw [Function.update_self, IteratorCache.cleared_entry] at isHeld
          exact isHeld.2
        · rw [Function.update_of_ne same] at isHeld
          exact isHeld
    simp only [Cursors.withoutRow, Cursors.among]
    by_cases same : tested = r
    · subst same
      rw [Function.update_self]
      have goneNow : ∀ anyKey, ¬ final.Shows tested position anyKey := by
        intro anyKey shows
        rcases shows with ⟨same, id, row, isPosition, held, _, _⟩
        rw [isCaches, Function.update_self,
          IteratorCache.cleared_entry] at held
        omega
      by_cases sameKey : testedKey = key
      · subst sameKey
        rw [Function.update_self]
        constructor
        · intro isNone
          cases isNone
        · intro shows
          have different : other ≠ position := by
            intro isPosition
            subst isPosition
            exact goneNow _ shows
          have before := (old fun _ => different).mp shows
          exact absurd (Shows.position_unique consistent before showed)
            different
      · rw [Function.update_of_ne sameKey, tracks.position]
        by_cases isPosition : other = position
        · subst isPosition
          constructor
          · exact fun before => absurd
              (Shows.key_unique consistent before showed) sameKey
          · exact fun shows => absurd shows (goneNow _)
        · exact (old fun _ => isPosition).symm
    · rw [Function.update_of_ne same, tracks.position]
      exact (old fun isRow => absurd isRow same).symm

/-! ## End iterators -/

variable {tab : Int64}

theorem tables_isSome_iff :
    (eos.store.tables name).isSome = true ↔
      ∃ tab, Named eos.db.rows tab name := by
  rw [Option.isSome_iff_ne_none, Ne, store, tables_eq_none_iff]
  push Not
  rfl

/-- A table that has been before is the one that it was, if it is there. -/
theorem Advanced.named_iff (advanced : eos.Advanced used gone store final)
    (before : Named eos.db.rows tab name) :
    Named final.db.rows tab name ↔ (store.tables name).isSome = true := by
  rw [← advanced.store, tables_isSome_iff]
  constructor
  · exact fun named => ⟨tab, named⟩
  · intro isTable
    rcases isTable with ⟨other, named⟩
    rcases advanced.names other name named with old | isNew
    · rw [old.id_unique before] at named
      exact named
    · exact absurd before (tables_eq_none_iff.mp isNew.2 tab)

/-- A cached table that is there now has its name from before. -/
theorem Advanced.cached_iff (advanced : eos.Advanced used gone store final)
    (consistent : eos.Consistent used) {entry : Address × Int}
    (cached : (eos.caches .keyValue).tableCache[tab]? = some entry) :
    Named final.db.rows tab name ↔
      Named eos.db.rows tab name ∧ (store.tables name).isSome = true := by
  have isUsed := ((consistent.caches .keyValue).tables tab entry cached).1
  constructor
  · intro named
    have before := advanced.named_of_used isUsed named
    exact ⟨before, (advanced.named_iff before).mp named⟩
  · exact fun named => (advanced.named_iff named.1).mpr named.2

/-- No table is new to the cache. -/
theorem TracksEnds.kept (tracks : eos.TracksEnds cursors)
    (advanced : eos.Advanced used gone store final)
    (consistent : eos.Consistent used)
    (sameTables : (final.caches .keyValue).tableCache =
      (eos.caches .keyValue).tableCache)
    (sameEnds : (final.caches .keyValue).endIteratorToTable.length =
      (eos.caches .keyValue).endIteratorToTable.length) :
    final.TracksEnds (cursors.among store) where
  ends := by
    rw [sameEnds]
    exact tracks.ends
  endOf := by
    intro name index
    simp only [Cursors.among, Option.ite_none_right_eq_some, tracks.endOf,
      sameTables]
    constructor
    · intro held
      rcases held with ⟨isTable, tab, entry, named, cached, isEnd⟩
      exact ⟨tab, entry,
        (advanced.cached_iff consistent cached).mpr ⟨named, isTable⟩, cached,
        isEnd⟩
    · intro held
      rcases held with ⟨tab, entry, named, cached, isEnd⟩
      have before := (advanced.cached_iff consistent cached).mp named
      exact ⟨before.2, tab, entry, before.1, cached, isEnd⟩

/-- A table has the end iterator of its entry. -/
theorem TracksEnds.endOf_cached (tracks : eos.TracksEnds cursors)
    (charted : (eos.caches .keyValue).Charted)
    (few : (eos.caches .keyValue).endIteratorToTable.length < 2 ^ 31)
    {entry : Address × Int} (named : Named eos.db.rows tab name)
    (cached : (eos.caches .keyValue).tableCache[tab]? = some entry) :
    ∃ index : Nat, entry.2 = -(index + 2) ∧
      cursors.endOf name = some index := by
  rcases charted.entry few cached with ⟨index, isEnd, _⟩
  exact ⟨index, isEnd,
    (tracks.endOf name index).mpr ⟨tab, entry, named, cached, isEnd⟩⟩

/-- A table is in the cache now. -/
theorem TracksEnds.tableCached {tableAddress : Address}
    (tracks : eos.TracksEnds cursors)
    (charted : (eos.caches .keyValue).Charted)
    (few : (eos.caches .keyValue).endIteratorToTable.length + 1 < 2 ^ 31)
    (advanced : eos.Advanced used gone store final)
    (consistent : eos.Consistent used)
    (named : Named final.db.rows tab name)
    (isTables : (final.caches .keyValue).tableCache =
      ((eos.caches .keyValue).cacheTable tab tableAddress).2.tableCache)
    (isEnds : (final.caches .keyValue).endIteratorToTable =
      ((eos.caches .keyValue).cacheTable tab
        tableAddress).2.endIteratorToTable) :
    final.TracksEnds ((cursors.withTable name).among store) ∧
      ((eos.caches .keyValue).cacheTable tab tableAddress).1 =
        cursors.endIterator name := by
  have isTable : (store.tables name).isSome = true := by
    rw [← advanced.store, tables_isSome_iff]
    exact ⟨tab, named⟩
  cases cached : (eos.caches .keyValue).tableCache[tab]? with
  | some entry =>
      have before := ((advanced.cached_iff consistent cached).mp named).1
      rcases tracks.endOf_cached charted (by omega) before cached with
        ⟨index, isEnd, known⟩
      have same : (eos.caches .keyValue).cacheTable tab tableAddress =
          (entry.2, eos.caches .keyValue) := by
        rw [IteratorCache.cacheTable, cached]
      rw [same] at isTables isEnds ⊢
      rw [Cursors.withTable, Cursors.endIterator, known]
      exact ⟨tracks.kept advanced consistent isTables
        (congrArg List.length isEnds), isEnd⟩
  | none =>
      have unknown : cursors.endOf name = none := by
        rw [Option.eq_none_iff_forall_ne_some]
        intro index known
        rcases (tracks.endOf name index).mp known with
          ⟨other, entry, before, isCached, _⟩
        have stays := (advanced.cached_iff consistent isCached).mpr
          ⟨before, isTable⟩
        rw [stays.id_unique named, cached] at isCached
        cases isCached
      have isEnd : IteratorCache.indexToEndIterator
          (eos.caches .keyValue).endIteratorToTable.length =
            -((cursors.ends : Int) + 2) := by
        rw [tracks.ends]
        apply IteratorCache.indexToEndIterator_eq
        have sameLength := tracks.ends
        omega
      have same : ((eos.caches .keyValue).cacheTable tab tableAddress).1 =
          IteratorCache.indexToEndIterator
            (eos.caches .keyValue).endIteratorToTable.length := by
        rw [IteratorCache.cacheTable, cached]
      constructor
      · constructor
        · rw [isEnds, IteratorCache.cacheTable_endIteratorToTable,
            if_pos cached, Cursors.withTable, unknown]
          simp [Cursors.among, tracks.ends]
        · intro other index
          rw [Cursors.withTable, unknown]
          simp only [Cursors.among, Option.ite_none_right_eq_some, isTables,
            IteratorCache.cacheTable_tableCache, cached, and_true]
          by_cases sameName : other = name
          · subst sameName
            rw [Function.update_self, Option.some.injEq]
            constructor
            · intro held
              refine ⟨tab, (tableAddress, IteratorCache.indexToEndIterator
                (eos.caches .keyValue).endIteratorToTable.length), named,
                if_pos rfl, ?_⟩
              rw [isEnd, held.2]
            · intro held
              rcases held with ⟨tested, entry, otherNamed, isCached, isIndex⟩
              rw [otherNamed.id_unique named, if_pos rfl] at isCached
              cases isCached
              refine ⟨isTable, ?_⟩
              rw [isEnd] at isIndex
              omega
          · rw [Function.update_of_ne sameName, tracks.endOf]
            constructor
            · intro held
              rcases held with
                ⟨stays, tested, entry, before, isCached, isIndex⟩
              have different : tab ≠ tested := by
                intro same
                rw [← same, cached] at isCached
                cases isCached
              exact ⟨tested, entry,
                (advanced.cached_iff consistent isCached).mpr ⟨before, stays⟩,
                (if_neg different).trans isCached, isIndex⟩
            · intro held
              rcases held with ⟨tested, entry, nowNamed, isCached, isIndex⟩
              have different : tab ≠ tested := by
                intro same
                rw [← same] at nowNamed
                exact sameName (nowNamed.name_unique named)
              rw [if_neg different] at isCached
              have before :=
                (advanced.cached_iff consistent isCached).mp nowNamed
              exact ⟨before.2, tested, entry, before.1, isCached, isIndex⟩
      · rw [same, Cursors.endIterator, unknown, Option.getD_none]
        exact isEnd

/-! ## Calls that leave the caches as they are -/

/-- The program changes no cache. -/
def KeepsCaches {α : Type} (program : EosDbM α) : Prop :=
  ∀ eos, Ends program eos (fun _ final => final.caches = eos.caches)
    (fun _ final => final.caches = eos.caches)

section Keeps

variable {α β : Type} {ndebug : Bool}

theorem keepsCaches_pure (value : α) : KeepsCaches (pure value : EosDbM α) :=
  fun _ => ends_pure rfl

theorem keepsCaches_throw (fault : Fault) :
    KeepsCaches (throw fault : EosDbM α) :=
  fun eos => ends_of_error (throw_apply fault eos) rfl

theorem KeepsCaches.bind {program : EosDbM α} {continuation : α → EosDbM β}
    (first : KeepsCaches program)
    (rest : ∀ value, KeepsCaches (continuation value)) :
    KeepsCaches (program >>= continuation) := by
  intro eos
  apply ends_bind
  apply (first eos).imp
  · intro value middle same
    apply (rest value middle).imp
    · exact fun _ _ later => later.trans same
    · exact fun _ _ later => later.trans same
  · exact fun _ _ same => same

theorem KeepsCaches.map {program : EosDbM α} (keeps : KeepsCaches program)
    (f : α → β) : KeepsCaches (f <$> program) :=
  fun eos => ends_map (keeps eos)

theorem keepsCaches_onDatabase (program : Database.DatabaseM eosDbTables α) :
    KeepsCaches (onDatabase program) := by
  intro eos
  apply ends_zoom
  cases ran : program eos.db with
  | ok value db => exact ends_of_ok ran rfl
  | error fault db => exact ends_of_error ran rfl

theorem keepsCaches_indices (t : TableType) : KeepsCaches (indices t) :=
  keepsCaches_onDatabase _

theorem keepsCaches_modify (t : TableType) (id : (indexOf t).Id)
    (modifier : (indexOf t).Value → (indexOf t).Value) :
    KeepsCaches (modify t id modifier) :=
  keepsCaches_onDatabase _

theorem keepsCaches_create (t : TableType) (block : Block)
    (value : (indexOf t).Value) : KeepsCaches (create t block value) := by
  intro eos
  apply ends_bind
  apply (keepsCaches_onDatabase _ eos).imp
  · intro _ middle same
    exact ends_of_ok rfl same
  · exact fun _ _ same => same

theorem keepsCaches_ofExcept (result : Except Fault α) :
    KeepsCaches (ofExcept result) := by
  cases result with
  | ok value => exact keepsCaches_pure value
  | error fault => exact keepsCaches_throw fault

theorem keepsCaches_objectAt (t : TableType) (address : Address) :
    KeepsCaches (objectAt t address) := by
  apply (keepsCaches_indices t).bind
  intro rows eos
  apply ends_bind
  apply ends_of_ok (get_apply eos)
  split
  · exact ends_pure rfl
  · exact ends_of_error (throw_apply _ _) rfl

theorem keepsCaches_getObject (r : RowTable) (iterator : Int) :
    KeepsCaches (getObject ndebug r iterator) := by
  intro eos
  apply ends_bind
  apply ends_of_ok (get_apply eos)
  exact ((keepsCaches_ofExcept _).bind fun address =>
    keepsCaches_objectAt r.type address) eos

theorem keepsCaches_getTable (r : RowTable) (tab : Int64) :
    KeepsCaches (getTable ndebug r tab) := by
  intro eos
  apply ends_bind
  apply ends_of_ok (get_apply eos)
  exact keepsCaches_ofExcept _ eos

end Keeps

end EosDb

namespace EosCall

variable {sha : Bytes → Sha256} {ndebug : Bool}

/-- Only calls that find, store or remove a row change a cache. -/
def SparesCaches : EosCall → Prop
  | .dbStoreI64 _ _ _ _ _ _ _ => False
  | .dbRemoveI64 _ => False
  | .dbFindI64 _ _ _ _ => False
  | .idxStore _ _ _ _ _ _ _ _ => False
  | .idxRemove _ _ => False
  | .undo _ => False
  | .undoAll _ => False
  | _ => True

variable (sha ndebug) in
theorem keepsCaches_program {call : EosCall} (spares : call.SparesCaches) :
    KeepsCaches (call.program sha ndebug) := by
  cases call with
  | findOrCreateTable code scope table payer block =>
      apply KeepsCaches.map
      apply ((keepsCaches_indices .tableId).bind fun _ =>
        keepsCaches_pure _).bind
      intro existing
      cases existing with
      | some tableObj => exact keepsCaches_pure _
      | none =>
          exact (keepsCaches_create .tableId block _).bind fun _ =>
            keepsCaches_pure _
  | dbStoreByScope code scope table payer buffer block =>
      exact ((keepsCaches_create .tableId block _).bind fun _ =>
        keepsCaches_pure _).map _
  | dbUpdateByScope tab payer buffer =>
      exact (keepsCaches_modify .tableId tab _).map _
  | dbUpdateI64 iterator payer buffer =>
      exact ((keepsCaches_getObject .keyValue iterator).bind fun _ =>
        keepsCaches_modify .keyValue _ _).map _
  | dbGetI64 iterator bufferSize =>
      apply KeepsCaches.map
      apply (keepsCaches_getObject .keyValue iterator).bind
      intro row
      dsimp only
      split
      · exact keepsCaches_pure _
      · exact keepsCaches_pure _
  | idxUpdate kind iterator payer secondary =>
      exact ((keepsCaches_getObject (.index kind) iterator).bind fun _ =>
        (keepsCaches_getTable (.index kind) _).bind fun _ =>
          keepsCaches_modify (.index kind) _ _).map _
  | dbStoreByKey type scope keyValue owner buffer block =>
      apply KeepsCaches.map
      apply (keepsCaches_ofExcept _).bind
      intro id
      apply (keepsCaches_indices .tableKey).bind
      intro rows
      dsimp only
      split
      · exact (keepsCaches_throw _).bind fun _ =>
          keepsCaches_create .tableKey block _
      · exact keepsCaches_create .tableKey block _
  | dbUpdateByKey type scope keyValue owner buffer =>
      apply KeepsCaches.map
      apply (keepsCaches_ofExcept _).bind
      intro id
      apply (keepsCaches_indices .tableKey).bind
      intro rows
      split
      · exact keepsCaches_throw _
      · exact keepsCaches_modify .tableKey _ _
  | dbRemoveByKey type scope keyValue =>
      apply KeepsCaches.map
      apply (keepsCaches_ofExcept _).bind
      intro id
      apply (keepsCaches_indices .tableKey).bind
      intro rows
      split
      · exact keepsCaches_throw _
      · exact keepsCaches_onDatabase _
  | dbFindByKey type scope keyValue =>
      exact ((keepsCaches_ofExcept _).bind fun _ =>
        (keepsCaches_indices .tableKey).bind fun _ =>
          keepsCaches_pure _).map _
  | startUndoSession => exact (keepsCaches_onDatabase _).map _
  | squash => exact (keepsCaches_onDatabase _).map _
  | commit revision => exact (keepsCaches_onDatabase _).map _
  | setRevision revision => exact (keepsCaches_onDatabase _).map _
  | _ => exact False.elim spares

end EosCall

/-! ## One call -/

namespace Cursors

variable (cursors : Cursors) (name : TableName) (r : RowTable) (key : StoreKey)

@[simp]
theorem withTable_count : (cursors.withTable name).count = cursors.count := by
  unfold withTable
  split
  · rfl
  · rfl

@[simp]
theorem withTable_position :
    (cursors.withTable name).position = cursors.position := by
  unfold withTable
  split
  · rfl
  · rfl

@[simp]
theorem withRow_ends : (cursors.withRow r key).ends = cursors.ends := by
  unfold withRow
  split
  · rfl
  · rfl

@[simp]
theorem withRow_endOf : (cursors.withRow r key).endOf = cursors.endOf := by
  unfold withRow
  split
  · rfl
  · rfl

/-- The positions of rows and of tables do not depend on each other. -/
theorem withTable_withRow :
    ((cursors.withTable name).withRow r key).count =
        (cursors.withRow r key).count ∧
      ((cursors.withTable name).withRow r key).position =
        (cursors.withRow r key).position := by
  simp only [withRow, withTable_position]
  split
  · simp
  · simp

end Cursors

namespace EosDb

variable {eos final : EosDb} {used : List Int64} {cursors other : Cursors}
  {store : ContractStore}

structure Tracks (eos : EosDb) (cursors : Cursors) : Prop where
  rows : eos.TracksRows cursors
  ends : eos.TracksEnds cursors

theorem TracksRows.congr (tracks : eos.TracksRows cursors)
    (count : other.count = cursors.count)
    (position : other.position = cursors.position) :
    eos.TracksRows other where
  count := by
    rw [count]
    exact tracks.count
  position := by
    rw [position]
    exact tracks.position

theorem TracksEnds.congr (tracks : eos.TracksEnds cursors)
    (ends : other.ends = cursors.ends) (endOf : other.endOf = cursors.endOf) :
    eos.TracksEnds other where
  ends := by
    rw [ends]
    exact tracks.ends
  endOf := by
    rw [endOf]
    exact tracks.endOf

theorem Tracks.kept (tracks : eos.Tracks cursors)
    (advanced : eos.Advanced used none store final)
    (consistent : eos.Consistent used) (same : final.caches = eos.caches) :
    final.Tracks (cursors.among store) where
  rows := tracks.rows.kept advanced consistent fun r => by rw [same]
  ends := tracks.ends.kept advanced consistent (by rw [same]) (by rw [same])

theorem tracks_ofDatabase (db : Database eosDbTables)
    (place : (t : TableType) → (indexOf t).Id → Address) :
    (ofDatabase db place).Tracks Cursors.empty where
  rows :=
    { count := fun _ => rfl
      position := by
        intro r key position
        constructor
        · intro isNone
          cases isNone
        · intro shows
          exact absurd shows.held_lt (Nat.not_lt_zero _) }
  ends :=
    { ends := rfl
      endOf := by
        intro name index
        constructor
        · intro isNone
          cases isNone
        · intro held
          rcases held with ⟨tab, entry, _, cached, _⟩
          cases Std.ExtTreeMap.getElem?_empty.symm.trans cached }

end EosDb

/-- The call finds, stores and removes no row. -/
def StoreCall.KeepsPositions : StoreCall → Prop
  | .findRow _ => False
  | .storeRow _ _ _ => False
  | .removeRow _ _ => False
  | _ => True

section KeepsPositions

variable {call : StoreCall}

theorem Cursors.moved_of_keeps (cursors : Cursors)
    (keeps : call.KeepsPositions) (store : ContractStore) :
    cursors.moved store call = cursors := by
  cases call with
  | findRow key => exact False.elim keeps
  | storeRow r key content => exact False.elim keeps
  | removeRow r key => exact False.elim keeps
  | _ => rfl

theorem Cursors.number_of_keeps (cursors : Cursors)
    (keeps : call.KeepsPositions) (store : ContractStore) :
    cursors.number store call = none := by
  cases call with
  | findRow key => exact False.elim keeps
  | storeRow r key content => exact False.elim keeps
  | _ => rfl

theorem StoreCall.KeepsPositions.no_row (keeps : call.KeepsPositions)
    (ndebug : Bool) (store : ContractStore) (isRow : Bool) :
    (call.run ndebug store).1 ≠ .ok (.row isRow) := by
  intro answers
  cases call with
  | findRow key => exact keeps
  | storeRow r key content => exact keeps
  | removeRow r key => exact keeps
  | findOrCreateTable name payer => cases answers
  | updateByScope name payer value => cases answers
  | updateRow r key content => cases answers
  | findRecord id => cases answers
  | getRow key bufferSize =>
      simp only [StoreCall.run, StoreCall.copyOf] at answers
      split at answers
      · cases answers
      · cases answers
  | storeByScope name payer value =>
      simp only [StoreCall.run] at answers
      split at answers
      · cases answers
      · cases answers
  | storeRecord id payer value =>
      simp only [StoreCall.run] at answers
      split at answers
      · cases answers
      · cases answers
  | updateRecord id payer value =>
      simp only [StoreCall.run] at answers
      split at answers
      · cases answers
      · cases answers
  | removeRecord id =>
      simp only [StoreCall.run] at answers
      split at answers
      · cases answers
      · cases answers

end KeepsPositions

def Reply.number : Reply → Option Int
  | .iterator value => some value
  | _ => none

namespace EosLog

variable {sha : Bytes → Sha256} {ndebug : Bool} {log : EosLog}
  {cursors : Cursors} {call : EosCall} {storeCall : StoreCall}

/-- The call returns the iterator that its names lead to. -/
def Numbers (sha : Bytes → Sha256) (ndebug : Bool) (log : EosLog)
    (cursors : Cursors) (call : EosCall) (storeCall : StoreCall) : Prop :=
  Ends (call.program sha ndebug) log.eos
    (fun reply final =>
      final.Tracks (cursors.after ndebug log.eos.store storeCall) ∧
      reply.number = cursors.number log.eos.store storeCall)
    (fun _ final =>
      final.Tracks (cursors.after ndebug log.eos.store storeCall) ∧
      cursors.number log.eos.store storeCall = none)

/-- Calls that are about no single row, or do not move it. -/
theorem numbers_of_spares (sound : log.Sound)
    (tracks : log.eos.Tracks cursors) (spares : call.SparesCaches)
    (follows : log.Follows sha ndebug call storeCall)
    (stays : cursors.moved log.eos.store storeCall = cursors)
    (noNumber : cursors.number log.eos.store storeCall = none)
    (noIterator : ∀ isRow,
      (storeCall.run ndebug log.eos.store).1 ≠ .ok (.row isRow)) :
    log.Numbers sha ndebug cursors call storeCall := by
  have keeps := EosCall.keepsCaches_program sha ndebug spares log.eos
  have notGone : call.gone = none := by
    cases call with
    | dbRemoveI64 iterator => exact False.elim spares
    | idxRemove kind iterator => exact False.elim spares
    | _ => rfl
  unfold Numbers
  rw [Cursors.after, stays, noNumber]
  cases ran : call.program sha ndebug log.eos with
  | ok reply final =>
      rcases follows.of_ok ran with ⟨advanced, answers, _, _⟩
      rw [notGone] at advanced
      refine ends_of_ok ran ⟨tracks.kept advanced sound.consistent
        (keeps.of_ok ran), ?_⟩
      cases reply with
      | iterator value => exact absurd answers (noIterator _)
      | _ => rfl
  | error fault final =>
      rcases follows.of_error ran with ⟨_, advanced, _⟩
      exact ends_of_error ran ⟨tracks.kept advanced sound.consistent
        (keeps.of_error ran), rfl⟩

/-! ### Stored rows -/

section Stores

variable {r : RowTable} {code : Name} {scope : Sha256} {table payer : Name}
  {id : UInt64} {memory : Memory} {newRow : Int64 → (indexOf r.type).Value}
  {content : r.Content}

/-- A stored row takes the next position of its cache, and only the primary
table remembers end iterators. -/
theorem tracks_stored {final : EosDb} {iterator : Int}
    {row : (indexOf r.type).Value} {address : Address} {name : TableName}
    {store : ContractStore} (sound : log.Sound)
    (few : log.FewIterators) (tracks : log.eos.Tracks cursors)
    (stored : log.eos.Stored log.tableIds r name row address iterator final)
    (advanced : log.eos.Advanced log.tableIds none store final)
    (shows : final.Shows r iterator (name, id)) :
    final.Tracks (((if r = .keyValue then
        (cursors.withTable name).withRow r (name, id)
      else cursors.withRow r (name, id))).among store) ∧
      iterator = cursors.iterator r (name, id) := by
  have fewEntries := few.entries r
  have isIterator : iterator = cursors.count r := by
    rw [stored.iterator, toInt32_eq (by omega) (by omega), tracks.rows.count]
  rw [isIterator] at shows
  rcases stored.caches with ⟨tableAddress, isCaches⟩
  have pushed := tracks.rows.pushed address advanced
    sound.consistent (by
      intro tested
      rw [isCaches]
      by_cases same : tested = r
      · subst same
        simp [IteratorCache.pushed]
      · simp [same]) shows
  refine ⟨?_, by rw [isIterator, pushed.2]⟩
  by_cases isPrimary : r = .keyValue
  · subst isPrimary
    rw [if_pos rfl]
    have ends := tracks.ends.tableCached
      sound.charted few.2 advanced sound.consistent
      ((stored.names _ _).mpr (Or.inr ⟨rfl, rfl⟩)) (by
        rw [isCaches, Function.update_self]
        rfl) (by
        rw [isCaches, Function.update_self]
        rfl)
    have apart := cursors.withTable_withRow name .keyValue (name, id)
    exact ⟨pushed.1.congr apart.1 apart.2,
      ends.1.congr (by simp [Cursors.among]) (by simp [Cursors.among])⟩
  · rw [if_neg isPrimary]
    have sameCache : final.caches .keyValue = log.eos.caches .keyValue := by
      rw [isCaches, Function.update_of_ne (Ne.symm isPrimary)]
    have ends := tracks.ends.kept advanced sound.consistent
      (by rw [sameCache]) (by rw [sameCache])
    exact ⟨pushed.1,
      ends.congr (by simp [Cursors.among]) (by simp [Cursors.among])⟩

theorem numbers_storeRow (sound : log.Sound)
    (few : log.FewIterators) (tracks : log.eos.Tracks cursors)
    (isProgram : call.program sha ndebug = Reply.iterator <$>
      storeRow r code scope table payer newRow memory)
    (isPayer : r.payer content = payer)
    (new : log.eos.NewEntry log.tableIds r (code, scope, table) id content
      newRow memory) :
    log.Numbers sha ndebug cursors call
      (.storeRow r ((code, scope, table), id) content) := by
  have consistent := sound.consistent
  have stores := consistent.storeRow_advanced payer sound.charted
    sound.numbered new (few.entries r)
  have ends := consistent.ends_storeRow payer
    (fun absent => (new.granted absent).tableBlock) new.vacant new.room
    new.ofTable
  rcases stores with refused | stored
  · rcases refused with ⟨taken, final, failed, advanced⟩
    have sameCaches : final.caches = log.eos.caches := by
      rcases (ends.of_error failed).2 with unchanged | isLocated
      · rw [unchanged]
      · rcases isLocated with ⟨tab, located⟩
        exact located.caches
    have failedCall : call.program sha ndebug log.eos =
        .error (.logicError uniquenessMessage) final := by
      rw [isProgram]
      exact map_apply_of_error Reply.iterator failed
    apply ends_of_error failedCall
    simp only [Cursors.after, Cursors.moved, Cursors.number, StoreCall.run,
      isPayer, if_pos taken, and_true]
    exact tracks.kept advanced consistent sameCaches
  · rcases stored with ⟨notTaken, iterator, final, ran, advanced, _, shows⟩
    rcases ends.of_ok ran with ⟨tab, isStored⟩
    have returned : call.program sha ndebug log.eos =
        .ok (.iterator iterator) final := by
      rw [isProgram]
      exact map_apply_of_ok Reply.iterator ran
    have moved := tracks_stored sound few tracks isStored advanced shows
    apply ends_of_ok returned
    simp only [Cursors.after, Cursors.moved, Cursors.number, StoreCall.run,
      isPayer, if_neg notTaken]
    exact ⟨moved.1, congrArg some moved.2⟩

end Stores

/-! ### Removed rows -/

section Removes

variable {r : RowTable} {iterator : Int} {key : StoreKey}
  {program : EosDbM PUnit}

theorem numbers_removeRow (sound : log.Sound)
    (tracks : log.eos.Tracks cursors)
    (isProgram : call.program sha ndebug = (fun _ => Reply.done) <$> program)
    (shows : log.eos.Shows r iterator key)
    (removes : ∀ (position : Nat) (id : (indexOf r.type).Id)
      (row : (indexOf r.type).Value) (tableObj : TableIdObject),
      iterator = position →
      log.eos.Holds r position (log.eos.place r.type id) id row tableObj →
        ∃ final, program log.eos = .ok ⟨⟩ final ∧
          log.eos.Removed log.tableIds r position
            (log.eos.place r.type id) id final)
    (advances : ∃ final, program log.eos = .ok ⟨⟩ final ∧
      log.eos.Advanced log.tableIds (some (r, iterator))
        ((log.eos.store.putRow r key none).dropTable r key.1) final) :
    log.Numbers sha ndebug cursors call (.removeRow r key) := by
  have consistent := sound.consistent
  rcases shows.holds consistent with
    ⟨position, id, row, tableObj, isPosition, holds, _⟩
  rcases removes position id row tableObj isPosition holds with
    ⟨final, ran, removed⟩
  rcases advances with ⟨other, alsoRan, advanced⟩
  have sameFinal : other = final := by
    rw [ran] at alsoRan
    cases alsoRan
    rfl
  subst sameFinal
  have returned : call.program sha ndebug log.eos = .ok .done other := by
    rw [isProgram]
    exact map_apply_of_ok (fun _ => Reply.done) ran
  apply ends_of_ok returned
  simp only [Cursors.after, Cursors.moved, Cursors.number, StoreCall.run]
  refine ⟨⟨?_, ?_⟩, rfl⟩
  · rw [isPosition] at shows advanced
    exact tracks.rows.cleared advanced consistent removed.caches shows
  · apply (tracks.ends.kept advanced consistent ?_ ?_).congr
    · simp [Cursors.among, Cursors.withoutRow]
    · simp [Cursors.among, Cursors.withoutRow]
    · rw [removed.caches]
      by_cases isPrimary : r = .keyValue
      · subst isPrimary
        rw [Function.update_self]
        rfl
      · rw [Function.update_of_ne (Ne.symm isPrimary)]
    · rw [removed.caches]
      by_cases isPrimary : r = .keyValue
      · subst isPrimary
        rw [Function.update_self]
        rfl
      · rw [Function.update_of_ne (Ne.symm isPrimary)]

end Removes

/-! ### Found rows -/

section Finds

variable {code : Name} {scope : Sha256} {table : Name} {id : UInt64}

/-- A row that is found keeps its position, or takes the next one. -/
theorem tracks_found {tab rowId : Int64} {key : StoreKey}
    {store : ContractStore} {value : Int}
    (sound : log.Sound) (few : log.FewIterators)
    (tracks : log.eos.Tracks cursors)
    (advanced : log.eos.Advanced log.tableIds none store
      ((log.eos.withTable tab).withObject rowId))
    (shows : ((log.eos.withTable tab).withObject rowId).Shows .keyValue value
      key)
    (isValue : value = (((log.eos.withTable tab).caches .keyValue).add
      ((log.eos.withTable tab).place .keyValue rowId)).1) :
    ((log.eos.withTable tab).withObject rowId).TracksRows
        ((cursors.withRow .keyValue key).among store) ∧
      value = cursors.iterator .keyValue key := by
  have consistent := sound.consistent
  have fewEntries := few.entries .keyValue
  have others : ∀ tested, tested ≠ RowTable.keyValue →
      ((log.eos.withTable tab).withObject rowId).caches tested =
        log.eos.caches tested := by
    intro tested different
    simp only [withObject, withTable, Function.update_of_ne different]
  have sameEntries :
      ((log.eos.withTable tab).caches .keyValue).iteratorToObject =
        (log.eos.caches .keyValue).iteratorToObject := by
    rw [withTable_cache, IteratorCache.cacheTable_iteratorToObject]
  have added : ((log.eos.withTable tab).withObject rowId).caches .keyValue =
      _ := withObject_cache rowId
  unfold IteratorCache.add at added isValue
  split at isValue
  · rename_i known
    rw [known] at added
    have same : ∀ tested,
        (((log.eos.withTable tab).withObject rowId).caches
            tested).iteratorToObject =
          (log.eos.caches tested).iteratorToObject := by
      intro tested
      by_cases isPrimary : tested = .keyValue
      · subst isPrimary
        rw [added, sameEntries]
      · rw [others tested isPrimary]
    rcases shows with ⟨position, id, row, isPosition, held, found, hasKey⟩
    have showed : log.eos.Shows .keyValue position key := by
      apply (advanced.shows_iff consistent (by simp) ?_).mp
        ⟨position, id, row, rfl, held, found, hasKey⟩
      intro address isHeld
      rw [← same]
      exact isHeld
    have stays := tracks.rows.iterator showed
    rw [stays.1, stays.2]
    exact ⟨tracks.rows.kept advanced consistent same, isPosition⟩
  · rename_i unknown
    rw [unknown] at added
    have isCount : value = cursors.count .keyValue := by
      rw [isValue, sameEntries, toInt32_eq (by omega) (by omega),
        tracks.rows.count]
    rw [isCount] at shows
    have pushed := tracks.rows.pushed
      ((log.eos.withTable tab).place .keyValue rowId) advanced consistent (by
        intro tested
        by_cases isPrimary : tested = .keyValue
        · subst isPrimary
          rw [if_pos rfl, added, sameEntries]
        · rw [if_neg isPrimary, others tested isPrimary]) shows
    exact ⟨pushed.1, by rw [isCount, pushed.2]⟩

theorem numbers_dbFindI64 (sound : log.Sound)
    (few : log.FewIterators) (tracks : log.eos.Tracks cursors) :
    log.Numbers sha ndebug cursors (.dbFindI64 code scope table id)
      (.findRow ((code, scope, table), id)) := by
  have consistent := sound.consistent
  have ready := consistent.ready
  have fewEntries := few.entries .keyValue
  have finds := consistent.dbFindI64_advanced code scope table id
    sound.charted fewEntries few.2
  rcases finds with ⟨value, final, ran, advanced, isRow, shows⟩
  apply ends_of_ok (map_apply_of_ok Reply.iterator ran)
  simp only [Cursors.after, Cursors.moved, Cursors.number, StoreCall.run,
    Reply.number]
  cases named : log.eos.tableNamed (code, scope, table) with
  | none =>
      have noTable := store_tables_eq_none_iff.mpr named
      have unchanged : dbFindI64 code scope table id log.eos = _ :=
        dbFindI64_noTable ready named
      rw [ran] at unchanged
      cases unchanged
      rw [noTable]
      exact ⟨tracks.kept advanced consistent rfl, rfl⟩
  | some tab =>
      have isTable : (log.eos.store.tables (code, scope, table)).isNone =
          false := by
        rw [Option.isNone_eq_false_iff, Option.isSome_iff_ne_none, Ne,
          store_tables_eq_none_iff, named]
        exact Option.some_ne_none tab
      have hasName : Named log.eos.db.rows tab.id (code, scope, table) := by
        have isRow := row_of_tableNamed named
        exact ⟨tab, isRow⟩
      rw [isTable]
      cases primary : log.eos.primaryRows ((code, scope, table), id) with
      | none =>
          have noRow : (log.eos.store.rows .keyValue
              ((code, scope, table), id)).isNone = true := by
            rw [store_rows_keyValue, primary]
            rfl
          have found := dbFindI64_noRow ready named primary
          rw [ran] at found
          cases found
          have ends := tracks.ends.tableCached
            sound.charted few.2 advanced consistent hasName
            (by rw [withTable_cache]) (by rw [withTable_cache])
          have rows := tracks.rows.kept advanced consistent (by
            intro tested
            by_cases isPrimary : tested = .keyValue
            · subst isPrimary
              rw [withTable_cache, IteratorCache.cacheTable_iteratorToObject]
            · simp only [withTable, Function.update_of_ne isPrimary])
          rw [noRow]
          exact ⟨⟨rows.congr (by simp [Cursors.among]) (by simp [Cursors.among]),
            ends.1⟩, congrArg some ends.2⟩
      | some row =>
          have noRow : (log.eos.store.rows .keyValue
              ((code, scope, table), id)).isNone = false := by
            rw [store_rows_keyValue, primary]
            rfl
          have isIterator : 0 ≤ value := by
            rw [store_rows_keyValue, primary] at isRow
            exact of_decide_eq_true isRow.symm
          have found := dbFindI64_of_primaryRow ready named primary
          rw [ran, addObject_apply] at found
          cases found
          have ends := tracks.ends.tableCached
            sound.charted few.2 advanced consistent hasName
            (by rw [withObject_cache, IteratorCache.add_tableCache,
              withTable_cache])
            (by rw [withObject_cache, IteratorCache.add_endIteratorToTable,
              withTable_cache])
          have rows := tracks_found sound few tracks advanced
            (shows isIterator) rfl
          have apart := cursors.withTable_withRow (code, scope, table)
            .keyValue ((code, scope, table), id)
          rw [noRow]
          exact ⟨⟨rows.1.congr apart.1 apart.2,
            ends.1.congr (by simp [Cursors.among]) (by simp [Cursors.among])⟩,
            congrArg some rows.2⟩

end Finds

/-! ### All calls -/

theorem numbers_call (sound : log.Sound)
    (tracks : log.eos.Tracks cursors)
    (permitted : log.Permitted sha ndebug call)
    (named : log.named sha call = some storeCall) :
    log.Numbers sha ndebug cursors call storeCall := by
  have few := permitted.2.1
  have grants := permitted.2.2
  have follows := follows_call sound permitted named
  have spared : call.SparesCaches → storeCall.KeepsPositions →
      log.Numbers sha ndebug cursors call storeCall := by
    intro spares keeps
    exact numbers_of_spares sound tracks spares follows
      (cursors.moved_of_keeps keeps _) (cursors.number_of_keeps keeps _)
      fun isRow => keeps.no_row ndebug _ isRow
  cases call with
  | dbStoreI64 code scope table payer id buffer memory =>
      cases named
      exact numbers_storeRow (r := .keyValue) sound few tracks rfl rfl
        (grants.newEntry (fun _ => rfl) (fun _ => rfl) (fun _ => rfl)
          fun _ => rfl)
  | idxStore kind code scope table payer id value memory =>
      cases named
      exact numbers_storeRow (r := .index kind) sound few tracks rfl rfl
        (grants.1.newEntry (fun _ => rfl) (fun _ => rfl) (fun _ => rfl)
          fun _ => grants.2)
  | dbFindI64 code scope table id =>
      cases named
      exact numbers_dbFindI64 sound few tracks
  | dbRemoveI64 iterator =>
      rcases Option.map_eq_some_iff.mp named with ⟨key, known, isCall⟩
      subst isCall
      have shows := sound.showsKey known
      apply numbers_removeRow sound tracks rfl shows
      · intro position id row tableObj isPosition holds
        rw [isPosition]
        exact holds.dbRemoveI64 sound.consistent
      · exact shows.dbRemoveI64 _ sound.consistent sound.charted
  | idxRemove kind iterator =>
      rcases Option.map_eq_some_iff.mp named with ⟨key, known, isCall⟩
      subst isCall
      have shows := sound.showsKey known
      apply numbers_removeRow sound tracks rfl shows
      · intro position id row tableObj isPosition holds
        rw [isPosition]
        exact holds.idxRemove sound.consistent
      · exact shows.idxRemove _ sound.consistent sound.charted
  | findOrCreateTable code scope table payer block =>
      cases named
      exact spared trivial trivial
  | dbStoreByScope code scope table payer buffer block =>
      cases named
      exact spared trivial trivial
  | dbUpdateByScope tab payer buffer =>
      rcases Option.map_eq_some_iff.mp named with ⟨name, _, isCall⟩
      subst isCall
      exact spared trivial trivial
  | dbUpdateI64 iterator payer buffer =>
      rcases Option.map_eq_some_iff.mp named with ⟨key, _, isCall⟩
      subst isCall
      exact spared trivial trivial
  | dbGetI64 iterator bufferSize =>
      rcases Option.map_eq_some_iff.mp named with ⟨key, _, isCall⟩
      subst isCall
      exact spared trivial trivial
  | idxUpdate kind iterator payer secondary =>
      rcases Option.map_eq_some_iff.mp named with ⟨key, _, isCall⟩
      subst isCall
      exact spared trivial trivial
  | dbStoreByKey type scope keyValue owner buffer block =>
      rcases Option.map_eq_some_iff.mp named with ⟨recordId, _, isCall⟩
      subst isCall
      exact spared trivial trivial
  | dbUpdateByKey type scope keyValue owner buffer =>
      rcases Option.map_eq_some_iff.mp named with ⟨recordId, _, isCall⟩
      subst isCall
      exact spared trivial trivial
  | dbRemoveByKey type scope keyValue =>
      rcases Option.map_eq_some_iff.mp named with ⟨recordId, _, isCall⟩
      subst isCall
      exact spared trivial trivial
  | dbFindByKey type scope keyValue =>
      rcases Option.map_eq_some_iff.mp named with ⟨recordId, _, isCall⟩
      subst isCall
      exact spared trivial trivial
  | _ => cases named

end EosLog

/-! ## Two databases -/

namespace EosCall

/-- The call without what the allocator and the database decide: the memory, and
the reference to a table. -/
def request : EosCall → EosCall
  | .findOrCreateTable code scope table payer _ =>
      .findOrCreateTable code scope table payer ⟨0, 0⟩
  | .dbStoreByScope code scope table payer buffer _ =>
      .dbStoreByScope code scope table payer buffer ⟨0, 0⟩
  | .dbUpdateByScope _ payer buffer => .dbUpdateByScope 0 payer buffer
  | .dbStoreI64 code scope table payer id buffer _ =>
      .dbStoreI64 code scope table payer id buffer ⟨⟨0, 0⟩, ⟨0, 0⟩⟩
  | .idxStore kind code scope table payer id value _ =>
      .idxStore kind code scope table payer id value ⟨⟨0, 0⟩, ⟨0, 0⟩⟩
  | .dbStoreByKey type scope key payer buffer _ =>
      .dbStoreByKey type scope key payer buffer ⟨0, 0⟩
  | call => call

/-- The table that a call refers to. -/
def tableOf (log : EosLog) : EosCall → Option TableName
  | .dbUpdateByScope tab _ _ => log.nameOf tab
  | _ => none

theorem shown_eq (call : EosCall) (reply : Reply) :
    call.shown reply =
      reply.number.bind fun value => call.request.shown (.iterator value) := by
  cases call <;> cases reply <;> rfl

@[simp]
theorem request_gone (call : EosCall) : call.request.gone = call.gone := by
  cases call <;> rfl

/-- The call with names, if the table that it refers to has the name. -/
def withName (sha : Bytes → Sha256) (log : EosLog) (name : Option TableName) :
    EosCall → Option StoreCall
  | .dbUpdateByScope _ payer buffer =>
      name.map fun known => .updateByScope known payer buffer
  | call => log.named sha call

theorem named_eq (sha : Bytes → Sha256) (log : EosLog) (call : EosCall) :
    log.named sha call =
      call.request.withName sha log (call.tableOf log) := by
  cases call <;> rfl

theorem withName_congr (sha : Bytes → Sha256) {left right : EosLog}
    (same : left.iterators = right.iterators) (name : Option TableName)
    (call : EosCall) :
    call.withName sha left name = call.withName sha right name := by
  cases call <;> simp only [withName, EosLog.named, EosLog.keyOf, same]

end EosCall

/-- A log that has the iterators as well. -/
structure NumberedLog where
  log : EosLog
  numbers : List (Option Int)

namespace NumberedLog

variable (sha : Bytes → Sha256) (ndebug : Bool)

def start (place : (t : TableType) → (indexOf t).Id → Address) : NumberedLog :=
  { log := EosLog.start place
    numbers := [] }

/-- The iterator that was returned. -/
def numberOf : EStateM.Result Fault EosDb Reply → Option Int
  | .ok reply _ => reply.number
  | .error _ _ => none

def step (numbered : NumberedLog) (call : EosCall) : Option NumberedLog :=
  (numbered.log.step sha ndebug call).map fun next =>
    { log := next
      numbers := numbered.numbers ++
        [numberOf (call.program sha ndebug numbered.log.eos)] }

/-- The iterators in the log after a call. -/
def iteratorsAfter (request : EosCall) (answer : Except Fault Answer)
    (number : Option Int) (iterators : List (RowTable × Int × StoreKey)) :
    List (RowTable × Int × StoreKey) :=
  match answer with
  | .ok _ =>
      (number.bind fun value => request.shown (.iterator value)).toList ++
        iterators.filter fun entry => request.gone ≠ some (entry.1, entry.2.1)
  | .error _ => iterators

variable {sha ndebug} {numbered : NumberedLog} {cursors : Cursors}
  {call : EosCall} {storeCall : StoreCall}

/-- What a call adds to the log follows from its names. -/
theorem tracks_step (accurate : numbered.log.Accurate ndebug)
    (tracks : numbered.log.eos.Tracks cursors)
    (permitted : numbered.log.Permitted sha ndebug call)
    (named : numbered.log.named sha call = some storeCall) :
    ∃ next, numbered.step sha ndebug call = some next ∧
      next.log.Accurate ndebug ∧
      next.log.eos.Tracks
        (cursors.after ndebug numbered.log.eos.store storeCall) ∧
      next.log.made = numbered.log.made ++ [storeCall] ∧
      next.numbers = numbered.numbers ++
        [cursors.number numbered.log.eos.store storeCall] ∧
      next.log.iterators = iteratorsAfter call.request
        (storeCall.run ndebug numbered.log.eos.store).1
        (cursors.number numbered.log.eos.store storeCall)
        numbered.log.iterators := by
  have follows := EosLog.follows_call accurate.sound permitted named
  have numbers := EosLog.numbers_call accurate.sound tracks permitted named
  rcases EosLog.accurate_step accurate permitted with
    ⟨next, made, stepped, nextAccurate, isMade⟩
  refine ⟨{ log := next
            numbers := numbered.numbers ++
              [numberOf (call.program sha ndebug numbered.log.eos)] },
    by rw [step, stepped]; rfl, nextAccurate, ?_⟩
  cases ran : call.program sha ndebug numbered.log.eos with
  | ok reply final =>
      rcases follows.of_ok ran with ⟨_, answers, _, _⟩
      rcases numbers.of_ok ran with ⟨nextTracks, isNumber⟩
      have isNext : numbered.log.returned sha call reply final = next := by
        simpa only [EosLog.step, ran, Option.some.injEq] using stepped
      subst isNext
      refine ⟨nextTracks, ?_, ?_, ?_⟩
      · simp [EosLog.returned, EosLog.entered, named]
      · rw [numberOf, isNumber]
      · rw [answers, ← isNumber]
        simp [EosLog.returned, iteratorsAfter, EosCall.shown_eq call reply]
  | error fault final =>
      rcases follows.of_error ran with ⟨isException, _, answers⟩
      rcases numbers.of_error ran with ⟨nextTracks, noNumber⟩
      have isNext :
          numbered.log.entered sha call (.error fault) final = next := by
        simpa only [EosLog.step, ran, isException, if_true, Option.some.injEq]
          using stepped
      subst isNext
      refine ⟨nextTracks, ?_, ?_, ?_⟩
      · simp [EosLog.entered, named]
      · rw [numberOf, noNumber]
      · rw [answers]
        rfl

end NumberedLog

/-- Two nodes that make each call together. -/
abbrev Pair := NumberedLog × NumberedLog

namespace Pair

variable (sha : Bytes → Sha256) (ndebug : Bool)

def step (pair : Pair) (calls : EosCall × EosCall) : Option Pair := do
  let left ← pair.1.step sha ndebug calls.1
  let right ← pair.2.step sha ndebug calls.2
  return (left, right)

/-- Both may make their calls, and refer to the same table. -/
def Permitted (pair : Pair) (calls : EosCall × EosCall) : Prop :=
  pair.1.log.Permitted sha ndebug calls.1 ∧
    pair.2.log.Permitted sha ndebug calls.2 ∧
    calls.1.tableOf pair.1.log = calls.2.tableOf pair.2.log

instance (pair : Pair) (calls : EosCall × EosCall) :
    Decidable (Permitted sha ndebug pair calls) := by
  unfold Permitted
  infer_instance

/-- The logs are the same, though the memory is not. -/
structure Alike (ndebug : Bool) (pair : Pair) : Prop where
  left : pair.1.log.Accurate ndebug
  right : pair.2.log.Accurate ndebug
  made : pair.1.log.made = pair.2.log.made
  iterators : pair.1.log.iterators = pair.2.log.iterators
  numbers : pair.1.numbers = pair.2.numbers
  cursors : ∃ cursors, pair.1.log.eos.Tracks cursors ∧
    pair.2.log.eos.Tracks cursors

variable {sha ndebug} {pair : Pair}

theorem Alike.store_answers (alike : Alike ndebug pair) :
    pair.1.log.eos.store = pair.2.log.eos.store ∧
      pair.1.log.answers = pair.2.log.answers := by
  have same : (pair.1.log.eos.store, pair.1.log.answers) =
      (pair.2.log.eos.store, pair.2.log.answers) := by
    rw [alike.left.store, alike.right.store, alike.made]
  exact Prod.mk.injEq _ _ _ _ ▸ same

theorem alike_step {calls : EosCall × EosCall} (alike : Alike ndebug pair)
    (permitted : Permitted sha ndebug pair calls)
    (sameRequest : calls.1.request = calls.2.request) :
    ∃ next, step sha ndebug pair calls = some next ∧ Alike ndebug next := by
  rcases permitted with ⟨left, right, sameTable⟩
  rcases alike.cursors with ⟨cursors, leftTracks, rightTracks⟩
  rcases Option.isSome_iff_exists.mp left.1 with ⟨storeCall, named⟩
  have sameName : pair.2.log.named sha calls.2 = some storeCall := by
    rw [← named, EosCall.named_eq, EosCall.named_eq, sameRequest, sameTable]
    exact EosCall.withName_congr sha alike.iterators.symm _ _
  rcases NumberedLog.tracks_step alike.left leftTracks left named with
    ⟨leftNext, leftStep, leftAccurate, leftFinal, leftMade, leftNumbers,
      leftIterators⟩
  rcases NumberedLog.tracks_step alike.right rightTracks right sameName with
    ⟨rightNext, rightStep, rightAccurate, rightFinal, rightMade, rightNumbers,
      rightIterators⟩
  have sameStore := alike.store_answers.1
  refine ⟨(leftNext, rightNext), ?_, leftAccurate, rightAccurate, ?_, ?_, ?_,
    _, leftFinal, ?_⟩
  · rw [step, leftStep]
    simp [rightStep]
  · rw [leftMade, rightMade, alike.made]
  · rw [leftIterators, rightIterators, sameRequest, sameStore, alike.iterators]
  · rw [leftNumbers, rightNumbers, alike.numbers, sameStore]
  · rw [sameStore]
    exact rightFinal

end Pair

/-- Two databases that make the same calls give the same answers, the same
iterators and the same rows, whatever memory their allocators return: addresses,
the ids of tables and of index rows, and the order in which addresses are used
again are not seen. -/
theorem memory_is_not_seen (sha : Bytes → Sha256) (ndebug : Bool)
    (leftPlace rightPlace : (t : TableType) → (indexOf t).Id → Address)
    (calls : List (EosCall × EosCall))
    (sameRequests : ∀ both ∈ calls, both.1.request = both.2.request)
    (permitted : Runs.AllowedFrom (Pair.step sha ndebug)
      (Pair.Permitted sha ndebug)
      (NumberedLog.start leftPlace, NumberedLog.start rightPlace)
      calls) :
    ∃ left right, Runs.run (Pair.step sha ndebug)
        (NumberedLog.start leftPlace, NumberedLog.start rightPlace) calls =
          some (left, right) ∧
      left.log.answers = right.log.answers ∧
      left.numbers = right.numbers ∧
      left.log.eos.store = right.log.eos.store := by
  have alike : Pair.Alike ndebug
      (NumberedLog.start leftPlace, NumberedLog.start rightPlace) :=
    ⟨EosLog.start_accurate leftPlace, EosLog.start_accurate rightPlace, rfl, rfl,
      rfl, Cursors.empty, tracks_ofDatabase _ _, tracks_ofDatabase _ _⟩
  generalize
    (NumberedLog.start leftPlace, NumberedLog.start rightPlace) = pair at *
  induction calls generalizing pair with
  | nil =>
      have same := alike.store_answers
      exact ⟨pair.1, pair.2, rfl, same.2, alike.numbers, same.1⟩
  | cons both rest inductionHypothesis =>
      rcases Pair.alike_step alike permitted.1 (sameRequests both (by simp))
        with ⟨next, stepped, nextAlike⟩
      rcases inductionHypothesis
        (fun later member => sameRequests later (List.mem_cons_of_mem _ member))
        next (permitted.2 next stepped) nextAlike with
        ⟨left, right, finished, same⟩
      refine ⟨left, right, ?_, same⟩
      rw [Runs.run_cons, stepped]
      exact finished

/-- A table that goes and comes again, a row that is refused, an address that one
database uses again and the other does not, and a table that is changed through
a reference. -/
def bothCalls : List (EosCall × EosCall) :=
  [(.dbStoreI64 ⟨1⟩ 2 ⟨3⟩ ⟨4⟩ 7 [10, 11] ⟨⟨16, 5⟩, ⟨32, 0⟩⟩,
      .dbStoreI64 ⟨1⟩ 2 ⟨3⟩ ⟨4⟩ 7 [10, 11] ⟨⟨160, 1⟩, ⟨320, 3⟩⟩),
    (.dbFindI64 ⟨1⟩ 2 ⟨3⟩ 8, .dbFindI64 ⟨1⟩ 2 ⟨3⟩ 8),
    (.dbRemoveI64 0, .dbRemoveI64 0),
    (.dbStoreByScope ⟨1⟩ 2 ⟨3⟩ ⟨4⟩ [1] ⟨16, 6⟩,
      .dbStoreByScope ⟨1⟩ 2 ⟨3⟩ ⟨4⟩ [1] ⟨192, 2⟩),
    (.dbUpdateByScope 6 ⟨5⟩ [2], .dbUpdateByScope 2 ⟨5⟩ [2]),
    (.dbStoreI64 ⟨1⟩ 2 ⟨3⟩ ⟨4⟩ 8 [12] ⟨⟨0, 0⟩, ⟨32, 0⟩⟩,
      .dbStoreI64 ⟨1⟩ 2 ⟨3⟩ ⟨4⟩ 8 [12] ⟨⟨0, 0⟩, ⟨336, 0⟩⟩),
    (.dbStoreI64 ⟨1⟩ 2 ⟨9⟩ ⟨4⟩ 8 [13] ⟨⟨64, 7⟩, ⟨80, 0⟩⟩,
      .dbStoreI64 ⟨1⟩ 2 ⟨9⟩ ⟨4⟩ 8 [13] ⟨⟨640, 3⟩, ⟨800, 0⟩⟩),
    (.idxStore .idx64 ⟨1⟩ 2 ⟨9⟩ ⟨4⟩ 7 100 ⟨⟨0, 0⟩, ⟨96, 9⟩⟩,
      .idxStore .idx64 ⟨1⟩ 2 ⟨9⟩ ⟨4⟩ 7 100 ⟨⟨0, 0⟩, ⟨960, 4⟩⟩),
    (.dbFindI64 ⟨1⟩ 2 ⟨3⟩ 7, .dbFindI64 ⟨1⟩ 2 ⟨3⟩ 7),
    (.dbGetI64 1 4, .dbGetI64 1 4)]

theorem memory_is_not_seen_both :
    ∃ left right, Runs.run (Pair.step (fun _ => 0) false)
        (NumberedLog.start fun _ _ => 0, NumberedLog.start fun _ _ => 1)
          bothCalls =
          some (left, right) ∧
      left.log.answers = right.log.answers ∧
      left.numbers = right.numbers ∧
      left.log.eos.store = right.log.eos.store :=
  memory_is_not_seen (fun _ => 0) false (fun _ _ => 0) (fun _ _ => 1) bothCalls
    (by simp [bothCalls, EosCall.request]) (by decide +kernel)

end StateDatabase
