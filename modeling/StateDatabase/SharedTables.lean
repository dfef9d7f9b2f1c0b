import Mathlib
import StateDatabase.StoreRefinement

/-!
# Several `eos_db` on one database

An `eos_db` holds a reference to the database and iterator caches of its own, so
a program can make any number of them, one for each contract say, and use them in
turn.  Their caches do not know of each other.

The calls of all of them together are calls on one set of maps, in the order in
which they are made, as long as no `eos_db` removes a row while another one holds
its address.  An iterator shows the same row whatever the others do.
-/

namespace StateDatabase

open Programs GenericIndex EosDb

/-- The caches of an `eos_db`, and what its user was given. -/
structure EosUser where
  caches : RowTable → IteratorCache
  tables : List (Int64 × TableName)
  iterators : List (RowTable × Int × StoreKey)

namespace EosUser

/-- A new `eos_db`. -/
def new : EosUser :=
  { caches := fun _ => IteratorCache.empty, tables := [], iterators := [] }

/-- An iterator of a row that was not removed holds its address. -/
def Holds (user : EosUser) (r : RowTable) (address : Address) : Prop :=
  some address ∈ (user.caches r).iteratorToObject

instance (user : EosUser) (r : RowTable) (address : Address) :
    Decidable (user.Holds r address) :=
  decidable_of_iff
    ((user.caches r).iteratorToObject.contains (some address) = true)
    List.contains_iff_mem

/-- The address that an iterator holds. -/
def pointer (user : EosUser) (r : RowTable) (iterator : Int) : Option Address :=
  ((user.caches r).iteratorToObject[iterator.toNat]?).join

end EosUser

/-- One database with its objects, and the `eos_db` on it. -/
structure SharedDatabase where
  db : Database eosDbTables
  place : (t : TableType) → (indexOf t).Id → Address
  tableIds : List Int64
  users : List EosUser
  made : List StoreCall
  answers : List (Except Fault Answer)

inductive SharedCall where
  /-- `eos_db _eosdb(db);` -/
  | construct
  /-- The object goes out of scope. -/
  | destroy (position : Nat)
  /-- A call of one of them. -/
  | through (position : Nat) (call : EosCall)

namespace SharedDatabase

/-- Empty tables, and no `eos_db` yet. -/
def start (place : (t : TableType) → (indexOf t).Id → Address) :
    SharedDatabase :=
  { db := emptyTables
    place := place
    tableIds := []
    users := []
    made := []
    answers := [] }

section Calls

variable (sha : Bytes → Sha256) (ndebug : Bool) (shared : SharedDatabase)

/-- The database as one of the `eos_db` sees it. -/
def log (user : EosUser) : EosLog :=
  { eos := { db := shared.db, place := shared.place, caches := user.caches }
    tableIds := shared.tableIds
    tables := user.tables
    iterators := user.iterators
    made := shared.made
    answers := shared.answers }

/-- A call changes the database, and the caches of its own `eos_db`. -/
def returned (position : Nat) (log : EosLog) : SharedDatabase :=
  { db := log.eos.db
    place := log.eos.place
    tableIds := log.tableIds
    users := shared.users.set position
      { caches := log.eos.caches
        tables := log.tables
        iterators := log.iterators }
    made := log.made
    answers := log.answers }

def step : SharedCall → Option SharedDatabase
  | .construct => some { shared with users := shared.users ++ [.new] }
  | .destroy position =>
      some { shared with users := shared.users.eraseIdx position }
  | .through position call =>
      match shared.users[position]? with
      | none => none
      | some user =>
          ((shared.log user).step sha ndebug call).map
            (shared.returned position)

/-- No other `eos_db` holds the address of a row that the call removes. -/
def Alone (position : Nat) (user : EosUser) (call : EosCall) : Prop :=
  ∀ removed ∈ call.gone, ∀ address ∈ user.pointer removed.1 removed.2,
    ∀ other ∈ shared.users.eraseIdx position, ¬ other.Holds removed.1 address

instance (position : Nat) (user : EosUser) (call : EosCall) :
    Decidable (shared.Alone position user call) := by
  unfold Alone
  infer_instance

def Permitted : SharedCall → Prop
  | .construct => True
  | .destroy _ => True
  | .through position call =>
      shared.users[position]? ≠ none ∧
      ∀ user ∈ shared.users[position]?,
        (shared.log user).Permitted sha ndebug call ∧
          shared.Alone position user call

instance (call : SharedCall) : Decidable (shared.Permitted sha ndebug call) := by
  cases call <;> unfold Permitted <;> infer_instance

end Calls

variable {sha : Bytes → Sha256} {ndebug : Bool} {shared : SharedDatabase}

/-! ## The others -/

section Others

variable {eos final : EosDb} {used : List Int64} {gone : Option (RowTable × Int)}
  {store : ContractStore} {user : EosUser}

/-- An `eos_db` with other caches. -/
def withCaches (eos : EosDb) (user : EosUser) : EosDb :=
  { eos with caches := user.caches }

/-- The rows whose addresses a user holds are not removed. -/
def Spares (eos : EosDb) (gone : Option (RowTable × Int)) (user : EosUser) :
    Prop :=
  ∀ (r : RowTable) (iterator : Int) (id : (indexOf r.type).Id),
    gone = some (r, iterator) → eos.PointsTo r iterator id →
      ¬ user.Holds r (eos.place r.type id)

/-- A row of another `eos_db` stays where it is, in its table. -/
theorem Spares.stays (spares : Spares eos gone user)
    (undisturbed : eos.Undisturbed used gone final) {r : RowTable}
    {id : (indexOf r.type).Id} {row : (indexOf r.type).Value} {position : Nat}
    (held : (user.caches r).iteratorToObject[position]? =
      some (some (eos.place r.type id)))
    (found : (eos.db.rows r.type).rows[id]? = some row) :
    final.place r.type id = eos.place r.type id ∧
      ∃ new, (final.db.rows r.type).rows[id]? = some new ∧
        r.scopePrimary new = r.scopePrimary row := by
  apply undisturbed.rows r id row found
  intro iterator isGone pointsTo
  exact spares r iterator id isGone pointsTo (List.mem_of_getElem? held)

theorem consistent_beside (advanced : eos.Advanced used gone store final)
    (consistent : (withCaches eos user).Consistent used)
    (spares : Spares eos gone user) :
    (withCaches final user).Consistent (final.liveTables ++ used) where
  ready := advanced.consistent.ready
  balanced := advanced.consistent.balanced
  apart := advanced.consistent.apart
  tableIds := advanced.consistent.tableIds
  caches := by
    intro r
    have sound := consistent.caches r
    refine CacheSound.mono (List.subset_append_right _ _)
      (sound.kept sound.mirrored rfl ?_ ?_)
    · intro tab isUsed stored
      refine ⟨?_, advanced.undisturbed.tables tab isUsed⟩
      rcases Option.ne_none_iff_exists'.mp stored with ⟨tableObj, hasTable⟩
      have named := advanced.named_of_used isUsed
        ⟨tableObj, hasTable, rfl⟩
      rcases named with ⟨before, isBefore, _⟩
      rw [show ((withCaches eos user).db.rows .tableId).rows[tab]? = _ from
        isBefore]
      exact Option.some_ne_none before
    · intro position address held
      refine ⟨held, ?_⟩
      intro id row found isAddress
      subst isAddress
      rcases spares.stays advanced.undisturbed held found with
        ⟨samePlace, new, isNew, sameKey⟩
      refine ⟨samePlace, new, isNew, ?_⟩
      rw [← r.scopePrimary_fst, ← r.scopePrimary_fst, sameKey]

/-- An iterator of another `eos_db` shows what it showed. -/
theorem shows_beside (advanced : eos.Advanced used gone store final)
    (consistent : (withCaches eos user).Consistent used)
    (spares : Spares eos gone user) {r : RowTable} {iterator : Int}
    {key : StoreKey} (shows : (withCaches eos user).Shows r iterator key) :
    (withCaches final user).Shows r iterator key := by
  apply shows.kept
  intro position id row _ held found hasKey
  rcases spares.stays advanced.undisturbed held found with
    ⟨samePlace, new, isNew, sameKey⟩
  have sameTable : r.tId new = r.tId row := by
    rw [← r.scopePrimary_fst, ← r.scopePrimary_fst, sameKey]
  refine ⟨held.trans (congrArg (fun address => some (some address))
    samePlace.symm), new, isNew, ?_⟩
  rcases advanced.consistent.hasKey isNew with ⟨newKey, hasNewKey⟩
  have isUsed : r.tId row ∈ used := by
    rcases hasKey.1 with ⟨tableObj, hasTable, _⟩
    apply consistent.tableIds
    rw [hasTable]
    exact Option.some_ne_none tableObj
  have before := advanced.named_of_used (sameTable ▸ isUsed) hasNewKey.1
  rw [sameTable] at before
  have sameName := before.name_unique hasKey.1
  refine ⟨sameName ▸ hasNewKey.1, ?_⟩
  rw [sameKey]
  exact hasKey.2

end Others

/-! ## One call -/

section Steps

variable {user other : EosUser} {position : Nat} {call : EosCall}
  {log next : EosLog} {gone : Option (RowTable × Int)} {store : ContractStore}

/-- What a call changes, whether it returns or throws. -/
theorem advanced_step (sound : log.Sound)
    (permitted : log.Permitted sha ndebug call)
    (stepped : log.step sha ndebug call = some next) :
    ∃ gone store, (∀ removed ∈ gone, removed ∈ call.gone) ∧
      log.eos.Advanced log.tableIds gone store next.eos := by
  rcases Option.isSome_iff_exists.mp permitted.1 with ⟨storeCall, named⟩
  have follows := EosLog.follows_call sound permitted named
  cases ran : call.program sha ndebug log.eos with
  | ok reply final =>
      simp only [EosLog.step, ran, Option.some.injEq] at stepped
      subst stepped
      exact ⟨call.gone, _, fun _ isGone => isGone, (follows.of_ok ran).1⟩
  | error fault final =>
      have failed := follows.of_error ran
      simp only [EosLog.step, ran, failed.1, if_true,
        Option.some.injEq] at stepped
      subst stepped
      exact ⟨none, _, by simp, failed.2.1⟩

/-- An `eos_db` that is not called stays right. -/
theorem sound_beside (isNext : next.Sound)
    (tableIds : next.tableIds = next.eos.liveTables ++ shared.tableIds)
    (advanced : (shared.log user).eos.Advanced shared.tableIds gone store
      next.eos)
    (sound : (shared.log other).Sound)
    (spares : Spares (shared.log user).eos gone other) :
    ((shared.returned position next).log other).Sound where
  consistent := by
    have beside := consistent_beside advanced sound.consistent spares
    rw [← tableIds] at beside
    exact beside
  charted := sound.charted
  wellMade := isNext.wellMade
  tables := by
    intro entry member
    have known := sound.tables entry member
    refine ⟨?_, ?_⟩
    · change entry.1 ∈ next.tableIds
      rw [tableIds]
      exact List.mem_append_right _ known.1
    · intro name hasName
      exact known.2 name (advanced.named_of_used known.1 hasName)
  shows := fun entry member =>
    shows_beside advanced sound.consistent spares (sound.shows entry member)

theorem Alone.spares (alone : shared.Alone position user call)
    (isCall : ∀ removed ∈ gone, removed ∈ call.gone)
    (isOther : other ∈ shared.users.eraseIdx position) :
    Spares (shared.log user).eos gone other := by
  intro r iterator id isGone pointsTo
  rcases pointsTo with ⟨entry, isEntry, held⟩
  subst isEntry
  apply alone (r, (entry : Int)) (isCall _ isGone) _ ?_ other isOther
  simp only [EosUser.pointer, Int.toNat_natCast]
  rw [show (user.caches r).iteratorToObject[entry]? = _ from held]
  rfl

/-- A new `eos_db` holds no address. -/
theorem spares_new (eos : EosDb) : Spares eos gone .new := by
  intro r iterator id _ _ holds
  simp [EosUser.Holds, EosUser.new, IteratorCache.empty] at holds

/-- The maps are right, and every `eos_db` is right about the database. -/
structure Accurate (ndebug : Bool) (shared : SharedDatabase) : Prop where
  users : ∀ user ∈ shared.users, (shared.log user).Sound
  new : (shared.log .new).Sound
  store : (storeOf shared.db.rows, shared.answers) =
    ContractStore.transcript ndebug shared.made

theorem accurate_through (accurate : shared.Accurate ndebug)
    (isUser : shared.users[position]? = some user)
    (permitted : (shared.log user).Permitted sha ndebug call)
    (alone : shared.Alone position user call) :
    ∃ final storeCall,
      shared.step sha ndebug (.through position call) = some final ∧
      final.Accurate ndebug ∧ final.made = shared.made ++ [storeCall] := by
  have sound := accurate.users user (List.mem_of_getElem? isUser)
  have isAccurate : (shared.log user).Accurate ndebug :=
    ⟨sound, accurate.store⟩
  rcases Option.isSome_iff_exists.mp permitted.1 with ⟨storeCall, named⟩
  rcases EosLog.next_step sound permitted named with ⟨next, stepped, isNext⟩
  rcases EosLog.accurate_step isAccurate permitted with
    ⟨other, _, alsoStepped, nextAccurate, _⟩
  cases stepped.symm.trans alsoStepped
  rcases advanced_step sound permitted stepped with
    ⟨gone, store, isCall, advanced⟩
  refine ⟨shared.returned position next, storeCall, ?_, ?_, isNext.made⟩
  · simp only [step, isUser, stepped, Option.map_some]
  · constructor
    · intro tested member
      rcases List.mem_iff_getElem?.mp member with ⟨found, isFound⟩
      by_cases same : position = found
      · subst same
        have inside := (List.getElem?_eq_some_iff.mp isUser).1
        simp only [returned, List.getElem?_set_self inside,
          Option.some.injEq] at isFound
        subst isFound
        exact nextAccurate.sound
      · simp only [returned, List.getElem?_set_ne same] at isFound
        have isOther : tested ∈ shared.users.eraseIdx position :=
          List.mem_eraseIdx_iff_getElem?.mpr ⟨found, Ne.symm same, isFound⟩
        exact sound_beside nextAccurate.sound isNext.tableIds advanced
          (accurate.users tested (List.mem_of_getElem? isFound))
          (Alone.spares alone isCall isOther)
    · exact sound_beside nextAccurate.sound isNext.tableIds advanced
        accurate.new (spares_new _)
    · exact nextAccurate.store

end Steps

/-! ## Runs -/

/-- How many calls of some `eos_db` there are. -/
def callsThrough (calls : List SharedCall) : Nat :=
  calls.countP fun call =>
    match call with
    | .through _ _ => true
    | _ => false

theorem accurate_run {calls : List SharedCall}
    (accurate : shared.Accurate ndebug)
    (permitted : Runs.AllowedFrom (step sha ndebug) (Permitted sha ndebug)
      shared calls) :
    ∃ final, Runs.run (step sha ndebug) shared calls = some final ∧
      final.Accurate ndebug ∧
      final.made.length = shared.made.length + callsThrough calls := by
  induction calls generalizing shared with
  | nil => exact ⟨shared, rfl, accurate, rfl⟩
  | cons call rest inductionHypothesis =>
      rcases permitted with ⟨isPermitted, later⟩
      cases call with
      | construct =>
          have next : { shared with
              users := shared.users ++ [EosUser.new] }.Accurate ndebug := by
            refine ⟨?_, accurate.new, accurate.store⟩
            intro user member
            rcases List.mem_append.mp member with isOld | isNew
            · exact accurate.users user isOld
            · rw [List.mem_singleton.mp isNew]
              exact accurate.new
          rcases inductionHypothesis next (later _ rfl) with
            ⟨final, finished, isAccurate, sameLength⟩
          exact ⟨final, finished, isAccurate, sameLength⟩
      | destroy position =>
          have next : { shared with
              users := shared.users.eraseIdx position }.Accurate ndebug :=
            ⟨fun user member =>
              accurate.users user (List.mem_of_mem_eraseIdx member),
              accurate.new, accurate.store⟩
          rcases inductionHypothesis next (later _ rfl) with
            ⟨final, finished, isAccurate, sameLength⟩
          exact ⟨final, finished, isAccurate, sameLength⟩
      | through position call =>
          rcases Option.ne_none_iff_exists'.mp isPermitted.1 with
            ⟨user, isUser⟩
          rcases isPermitted.2 user isUser with ⟨mayCall, alone⟩
          rcases accurate_through accurate isUser mayCall alone with
            ⟨next, storeCall, stepped, isAccurate, isMade⟩
          rcases inductionHypothesis isAccurate (later next stepped) with
            ⟨final, finished, finalAccurate, sameLength⟩
          refine ⟨final, ?_, finalAccurate, ?_⟩
          · rw [Runs.run_cons, stepped]
            exact finished
          · rw [sameLength, isMade]
            simp only [callsThrough, List.countP_cons, List.length_append,
              List.length_cons, List.length_nil, if_true]
            omega

theorem start_accurate (place : (t : TableType) → (indexOf t).Id → Address) :
    (start place).Accurate ndebug where
  users := by simp [start]
  new := EosLog.start_sound place
  store := (EosLog.start_accurate place).store

/-- However the calls of any number of `eos_db` follow each other, together they
are calls on one set of maps in that order: each gets the answer of these maps,
none ends the process, and every iterator that an `eos_db` has returned and not
removed is one of a row that the maps have. -/
theorem shared_calls_are_maps (sha : Bytes → Sha256) (ndebug : Bool)
    (place : (t : TableType) → (indexOf t).Id → Address)
    (calls : List SharedCall)
    (permitted : Runs.AllowedFrom (step sha ndebug) (Permitted sha ndebug)
      (start place) calls) :
    ∃ final, Runs.run (step sha ndebug) (start place) calls = some final ∧
      final.made.length = callsThrough calls ∧
      (storeOf final.db.rows, final.answers) =
        ContractStore.transcript ndebug final.made ∧
      ∀ user ∈ final.users, ∀ entry ∈ user.iterators,
        ((storeOf final.db.rows).rows entry.1 entry.2.2).isSome = true := by
  rcases accurate_run (start_accurate place) permitted with
    ⟨final, finished, accurate, sameLength⟩
  refine ⟨final, finished, ?_, accurate.store, ?_⟩
  · rw [sameLength]
    exact Nat.zero_add _
  · intro user member entry isEntry
    exact (accurate.users user member).iterators isEntry

/-- Two `eos_db` work on one table: the second one changes a row of the first
and stores another, the first one reads both and removes its own, and when the
second one is gone a third one finds the row that is left. -/
def sharedCalls : List SharedCall :=
  [.construct, .construct,
    .through 0 (.dbStoreI64 ⟨1⟩ 2 ⟨3⟩ ⟨4⟩ 7 [10, 11] ⟨⟨16, 5⟩, ⟨32, 0⟩⟩),
    .through 1 (.dbStoreI64 ⟨1⟩ 2 ⟨3⟩ ⟨4⟩ 8 [12] ⟨⟨48, 6⟩, ⟨64, 0⟩⟩),
    .through 0 (.dbFindI64 ⟨1⟩ 2 ⟨3⟩ 8),
    .through 1 (.dbUpdateI64 0 ⟨5⟩ [13, 14, 15]),
    .through 0 (.dbGetI64 1 2),
    .through 0 (.dbRemoveI64 0),
    .destroy 1, .construct,
    .through 1 (.dbFindI64 ⟨1⟩ 2 ⟨3⟩ 8),
    .through 1 (.dbGetI64 0 8)]

theorem shared_calls_are_maps_two :
    ∃ final, Runs.run (step (fun _ => 0) false) (start fun _ _ => 0)
        sharedCalls = some final ∧
      final.made.length = callsThrough sharedCalls ∧
      (storeOf final.db.rows, final.answers) =
        ContractStore.transcript false final.made ∧
      ∀ user ∈ final.users, ∀ entry ∈ user.iterators,
        ((storeOf final.db.rows).rows entry.1 entry.2.2).isSome = true :=
  shared_calls_are_maps (fun _ => 0) false (fun _ _ => 0) sharedCalls
    (by decide +kernel)

end SharedDatabase

end StateDatabase
