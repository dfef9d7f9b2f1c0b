import Mathlib
import StateDatabase.Library.Runs
import StateDatabase.KeyTypes

/-!
# Records as a map

With keys of one type, the records by key are a map from pairs of a scope and a
key to a payer and bytes.  The table knows only the hash of a pair.  Two
packings are undone to get from equal hashes to equal pairs: the two hashes that
are hashed together are 32 bytes each, and the packed key has its length in
front or a fixed size.

Calls with one pair of a map change what is kept for this pair only, so it is
enough that the pairs that are used have hashes of their own.
-/

namespace StateDatabase

open Programs Packing EosDb GenericIndex

/-! ## The map -/

/-- What is kept for every scope and key. -/
abbrev KeyMap (type : KeyType) : Type :=
  Sha256 × Key type → Option (Sha256 × Bytes)

/-- A call of the key-value API with keys of one type. -/
inductive KeyCall (type : KeyType) where
  | find (scope : Sha256) (key : Key type)
  | store (scope : Sha256) (key : Key type) (payer : Sha256) (buffer : Bytes)
      (block : Block)
  | update (scope : Sha256) (key : Key type) (payer : Sha256) (buffer : Bytes)
  | remove (scope : Sha256) (key : Key type)

namespace KeyCall

variable {type : KeyType}

def pair : KeyCall type → Sha256 × Key type
  | find scope key => (scope, key)
  | store scope key _ _ _ => (scope, key)
  | update scope key _ _ => (scope, key)
  | remove scope key => (scope, key)

variable (sha : Bytes → Sha256) (ndebug : Bool)

/-- The call on the database, with the payer and the bytes that it finds. -/
def run : KeyCall type → EosDbM (Option (Sha256 × Bytes))
  | find scope key => do
      let found ← dbFindByKey sha scope key
      return found.map fun t => (t.payer, t.value)
  | store scope key payer buffer block => do
      dbStoreByKey sha ndebug scope key payer buffer block
      return none
  | update scope key payer buffer => do
      dbUpdateByKey sha ndebug scope key payer buffer
      return none
  | remove scope key => do
      dbRemoveByKey sha ndebug scope key
      return none

/-- The state from which the caller goes on. -/
def step (eos : EosDb) (call : KeyCall type) : Option EosDb :=
  survive (call.run sha ndebug eos)

/-- What a call finds on a map and makes of it.  Storing what is there fails,
and so does changing what is not there: an `assert`, without which a store runs
into the unique index, and the other calls follow a null pointer. -/
def onMap (map : KeyMap type) :
    KeyCall type → Except Fault (Option (Sha256 × Bytes) × KeyMap type)
  | find scope key => .ok (map (scope, key), map)
  | store scope key payer buffer _ =>
      match map (scope, key) with
      | none =>
          .ok (none, Function.update map (scope, key) (some (payer, buffer)))
      | some _ =>
          .error (if ndebug then .logicError uniquenessMessage
            else .assertion "object key alreay exist")
  | update scope key payer buffer =>
      match map (scope, key) with
      | some _ =>
          .ok (none, Function.update map (scope, key) (some (payer, buffer)))
      | none => .error (.failedAssert ndebug "object key not found")
  | remove scope key =>
      match map (scope, key) with
      | some _ => .ok (none, Function.update map (scope, key) none)
      | none => .error (.failedAssert ndebug "object key not found")

/-- The map after a call; a call that fails leaves it as it is. -/
def after (map : KeyMap type) (call : KeyCall type) : KeyMap type :=
  match call.onMap ndebug map with
  | .ok (_, next) => next
  | .error _ => map

/-- The call returns on the database what it returns on the map, or it fails in
the same way and leaves the database as it is. -/
def BehavesAs (eos : EosDb) (map : KeyMap type) (call : KeyCall type) : Prop :=
  match call.onMap ndebug map with
  | .ok (found, _) => ∃ final, call.run sha ndebug eos = .ok found final
  | .error fault => call.run sha ndebug eos = .error fault eos

end KeyCall

/-- The length of the key is accepted when it is packed or hashed. -/
def Accepted : {type : KeyType} → Key type → Prop
  | .int, _ => True
  | .cString, text => text.1.length ≤ maxSizeOfByteArrays
  | .stdString, text => text.length < 2 ^ 32

/-- The record that the table has for a pair. -/
def readMap (sha : Bytes → Sha256) {type : KeyType} (eos : EosDb) :
    KeyMap type := fun pair => do
  let id ← (hashKey sha pair.1 pair.2).toOption
  let t ← (eos.db.rows .tableKey).find id
  return (t.payer, t.value)

/-! ## Pairs and their hashes -/

section Hashes

variable {type : KeyType} {key other : Key type} {bytes : Bytes}

theorem exists_packed (accepted : Accepted key) :
    ∃ bytes, packKey key = .ok bytes := by
  cases type with
  | int => exact ⟨_, rfl⟩
  | cString =>
      refine ⟨varint 10 key.1.length ++ key.1, ?_⟩
      rw [packKey]
      exact if_pos accepted
  | stdString => exact ⟨_, rfl⟩

/-- Accepted keys of one type have bytes of their own. -/
theorem packKey_inj (accepted : Accepted key) (accepted' : Accepted other)
    (packed : packKey key = .ok bytes) (packed' : packKey other = .ok bytes) :
    key = other := by
  cases type with
  | int =>
      have same := packed.trans packed'.symm
      exact number_inj (Except.ok.inj same)
  | cString =>
      have isBytes := packKey_cString packed
      have isBytes' := packKey_cString packed'
      exact Subtype.ext (packedText_inj accepted accepted'
        (isBytes.2.symm.trans isBytes'.2))
  | stdString =>
      have whole : ∀ {text : Key .stdString}, Accepted text →
          text.take (text.length % 2 ^ 32) = text := by
        intro text small
        rw [Nat.mod_eq_of_lt small, List.take_length]
      have same := Except.ok.inj (packed.trans packed'.symm)
      rw [whole accepted, whole accepted'] at same
      exact same

theorem hashBytes_length (hash : Sha256) : (hashBytes hash).length = 32 := by
  rw [hashBytes, List.length_reverse, littleEndian_length]

variable {sha : Bytes → Sha256} {scope scope' : Sha256} {id : Sha256}

/-- Pairs with the same hash are the same when the hash tells apart what is
hashed for them. -/
theorem hashKey_inj (accepted : Accepted key) (accepted' : Accepted other)
    (collisionFree : CollisionFree sha
      (hashedStrings sha scope key ++ hashedStrings sha scope' other))
    (hashes : hashKey sha scope key = .ok id)
    (hashes' : hashKey sha scope' other = .ok id) :
    (scope, key) = (scope', other) := by
  rcases exists_packed accepted with ⟨bytes, packed⟩
  rcases exists_packed accepted' with ⟨bytes', packed'⟩
  rw [hashKey, packed] at hashes
  rw [hashKey, packed'] at hashes'
  have same : tableKeyOf sha scope (sha bytes) =
      tableKeyOf sha scope' (sha bytes') :=
    (Except.ok.inj hashes).trans (Except.ok.inj hashes').symm
  rw [hashedStrings, packed, hashedStrings, packed'] at collisionFree
  have samePair := collisionFree _ (by simp) _ (by simp) same
  have sameLength : (hashBytes scope).length = (hashBytes scope').length := by
    rw [hashBytes_length, hashBytes_length]
  have parts := List.append_inj samePair sameLength
  have sameBytes := collisionFree _ (by simp) _ (by simp)
    (hashBytes_inj parts.2)
  rw [← sameBytes] at packed'
  rw [hashBytes_inj parts.1, packKey_inj accepted accepted' packed packed']

theorem exists_hashKey (accepted : Accepted key) :
    ∃ id, hashKey sha scope key = .ok id := by
  rcases exists_packed accepted with ⟨bytes, packed⟩
  refine ⟨tableKeyOf sha scope (sha bytes), ?_⟩
  rw [hashKey, packed]
  rfl

end Hashes

/-! ## The calls on the table -/

namespace EosDb

/-- One record of the table is what it is now, and there may be none. -/
structure Recorded (id : Sha256) (record : Option TableKeyObject)
    (eos final : EosDb) : Prop where
  ready : final.db.Ready
  rows : ∀ tested : Sha256, (final.db.rows .tableKey).rows[tested]? =
    if id = tested then record else (eos.db.rows .tableKey).rows[tested]?

theorem Recorded.of_wrote {id : Sha256} {record : Option TableKeyObject}
    {eos final : EosDb} {contents : MultiIndex tableKeyMultiIndex}
    (wrote : Database.Wrote .tableKey contents eos.db final.db)
    (rows : ∀ tested : Sha256, contents.rows[tested]? =
      if id = tested then record
      else (eos.db.rows .tableKey).rows[tested]?) :
    Recorded id record eos final where
  ready := wrote.ready
  rows := by
    intro tested
    rw [wrote.rows, Function.update_self]
    exact rows tested

section Calls

variable {eos : EosDb} {sha : Bytes → Sha256} {ndebug : Bool} {type : KeyType}
  {scope payer id : Sha256} {key : Key type} {buffer : Bytes} {block : Block}

theorem dbFindByKey_of_hashKey (ready : eos.db.Ready)
    (hashed : hashKey sha scope key = .ok id) :
    dbFindByKey sha scope key eos =
      .ok (eos.db.rows .tableKey).rows[id]? eos := by
  have looks : indices .tableKey eos = _ := indices_apply ready .tableKey
  rw [dbFindByKey, hashed]
  exact bind_apply_of_ok _ looks

theorem dbStoreByKey_of_absent (ready : eos.db.Ready)
    (hashed : hashKey sha scope key = .ok id)
    (absent : (eos.db.rows .tableKey).rows[id]? = none) :
    ∃ final, dbStoreByKey sha ndebug scope key payer buffer block eos =
        .ok ⟨⟩ final ∧
      Recorded id (some ⟨id, payer, buffer⟩) eos final := by
  have looks : indices .tableKey eos = _ := indices_apply ready .tableKey
  have admits : (eos.db.rows .tableKey).Admits ⟨id, payer, buffer⟩ := by
    apply (MultiIndex.admits_iff _ _).mpr
    exact ⟨absent, fun _ _ _ clash => not_clash_tableKey _ _ clash⟩
  have inserts := MultiIndex.emplace_of_admits admits
  have creates : ∃ db, create .tableKey block ⟨id, payer, buffer⟩ eos = _ ∧ _ :=
    create_some ready inserts
  rcases creates with ⟨db, created, wrote⟩
  refine ⟨_, Eq.trans ?_ created,
    .of_wrote wrote (MultiIndex.emplace_some inserts).2⟩
  rw [dbStoreByKey, hashed]
  apply (bind_apply_of_ok _ looks).trans
  rw [MultiIndex.find, absent]
  rfl

theorem dbStoreByKey_of_present (ready : eos.db.Ready)
    (hashed : hashKey sha scope key = .ok id)
    (present : (eos.db.rows .tableKey).rows[id]? ≠ none) :
    dbStoreByKey sha ndebug scope key payer buffer block eos =
      .error (if ndebug then .logicError uniquenessMessage
        else .assertion "object key alreay exist") eos := by
  have looks : indices .tableKey eos = _ := indices_apply ready .tableKey
  have refused : (eos.db.rows .tableKey).emplace ⟨id, payer, buffer⟩ =
      none := by
    apply (MultiIndex.emplace_eq_none_iff _ _).mpr
    intro admits
    exact present admits.1
  have isSome : ((eos.db.rows .tableKey).find id).isSome = true :=
    Option.isSome_iff_ne_none.mpr present
  rw [dbStoreByKey, hashed]
  apply (bind_apply_of_ok _ looks).trans
  rw [isSome]
  cases ndebug with
  | false => rfl
  | true => exact create_none ready refused

theorem dbUpdateByKey_of_present {record : TableKeyObject}
    (ready : eos.db.Ready) (hashed : hashKey sha scope key = .ok id)
    (found : (eos.db.rows .tableKey).rows[id]? = some record) :
    ∃ final, dbUpdateByKey sha ndebug scope key payer buffer eos =
        .ok ⟨⟩ final ∧
      Recorded id (some ⟨id, payer, buffer⟩) eos final := by
  have looks : indices .tableKey eos = _ := indices_apply ready .tableKey
  have isId : record.id = id := (eos.db.rows .tableKey).keyed found
  rw [← isId] at found
  have same := interchangeable_tableKey record payer buffer
  rcases EosDb.modify_of_interchangeable (t := .tableKey)
    (fun t => { t with payer := payer, value := buffer }) ready found same with
    ⟨db, modified, modifies, wrote, rows⟩
  rw [isId] at found rows
  refine ⟨_, Eq.trans ?_ modifies, .of_wrote wrote rows⟩
  rw [dbUpdateByKey, hashed]
  apply (bind_apply_of_ok _ looks).trans
  rw [MultiIndex.find, found]

theorem dbRemoveByKey_of_present {record : TableKeyObject}
    (ready : eos.db.Ready) (hashed : hashKey sha scope key = .ok id)
    (found : (eos.db.rows .tableKey).rows[id]? = some record) :
    ∃ final, dbRemoveByKey sha ndebug scope key eos = .ok ⟨⟩ final ∧
      Recorded id none eos final := by
  have looks : indices .tableKey eos = _ := indices_apply ready .tableKey
  have isId : record.id = id := (eos.db.rows .tableKey).keyed found
  rcases remove_of_row (t := .tableKey) ready found with ⟨db, removes, wrote⟩
  have erased := MultiIndex.erase_row (T := tableKeyMultiIndex)
    (eos.db.rows .tableKey) id
  refine ⟨_, Eq.trans ?_ removes, .of_wrote wrote erased⟩
  rw [dbRemoveByKey, hashed]
  apply (bind_apply_of_ok _ looks).trans
  rw [MultiIndex.find, found]
  exact congrFun (congrArg (remove .tableKey) isId) eos

theorem dbUpdateByKey_of_absent (ready : eos.db.Ready)
    (hashed : hashKey sha scope key = .ok id)
    (absent : (eos.db.rows .tableKey).rows[id]? = none) :
    dbUpdateByKey sha ndebug scope key payer buffer eos =
      .error (.failedAssert ndebug "object key not found") eos := by
  have looks : indices .tableKey eos = _ := indices_apply ready .tableKey
  rw [dbUpdateByKey, hashed]
  apply (bind_apply_of_ok _ looks).trans
  rw [MultiIndex.find, absent]
  rfl

theorem dbRemoveByKey_of_absent (ready : eos.db.Ready)
    (hashed : hashKey sha scope key = .ok id)
    (absent : (eos.db.rows .tableKey).rows[id]? = none) :
    dbRemoveByKey sha ndebug scope key eos =
      .error (.failedAssert ndebug "object key not found") eos := by
  have looks : indices .tableKey eos = _ := indices_apply ready .tableKey
  rw [dbRemoveByKey, hashed]
  apply (bind_apply_of_ok _ looks).trans
  rw [MultiIndex.find, absent]
  rfl

end Calls

end EosDb

/-! ## The table as a map -/

/-- The table has the records of the map for these pairs. -/
structure HoldsMap (sha : Bytes → Sha256) {type : KeyType}
    (pairs : List (Sha256 × Key type)) (map : KeyMap type) (eos : EosDb) :
    Prop where
  ready : eos.db.Ready
  agrees : ∀ pair ∈ pairs, readMap sha eos pair = map pair

/-- The pairs have hashes, and different ones. -/
structure Separated (sha : Bytes → Sha256) {type : KeyType}
    (pairs : List (Sha256 × Key type)) : Prop where
  hashed : ∀ pair ∈ pairs, ∃ id, hashKey sha pair.1 pair.2 = .ok id
  different : ∀ left ∈ pairs, ∀ right ∈ pairs, ∀ id,
    hashKey sha left.1 left.2 = .ok id →
      hashKey sha right.1 right.2 = .ok id → left = right

section Maps

variable {sha : Bytes → Sha256} {ndebug : Bool} {type : KeyType}
  {pairs : List (Sha256 × Key type)} {map : KeyMap type} {eos final : EosDb}
  {pair : Sha256 × Key type} {id : Sha256}

theorem readMap_of_hashKey (hashed : hashKey sha pair.1 pair.2 = .ok id) :
    readMap sha eos pair =
      ((eos.db.rows .tableKey).rows[id]?).map fun t => (t.payer, t.value) := by
  rw [readMap, hashed]
  exact Option.map_eq_bind.symm

theorem Separated.of_collisionFree
    (accepted : ∀ pair ∈ pairs, Accepted pair.2)
    (collisionFree : CollisionFree sha
      (pairs.flatMap fun pair => hashedStrings sha pair.1 pair.2)) :
    Separated sha pairs where
  hashed := fun pair member => exists_hashKey (accepted pair member)
  different := by
    intro left isLeft right isRight id hashes hashes'
    have strings : ∀ pair ∈ pairs, hashedStrings sha pair.1 pair.2 ⊆
        pairs.flatMap fun pair => hashedStrings sha pair.1 pair.2 := by
      intro pair member text isText
      exact List.mem_flatMap.mpr ⟨pair, member, isText⟩
    have both := List.append_subset.mpr
      ⟨strings left isLeft, strings right isRight⟩
    apply hashKey_inj (accepted left isLeft) (accepted right isRight) _
      hashes hashes'
    intro first isFirst second isSecond
    exact collisionFree first (both isFirst) second (both isSecond)

/-- A new record of one pair is nothing that another pair is read from. -/
theorem HoldsMap.of_recorded {record : Option TableKeyObject}
    (holds : HoldsMap sha pairs map eos) (separated : Separated sha pairs)
    (isPair : pair ∈ pairs) (hashed : hashKey sha pair.1 pair.2 = .ok id)
    (recorded : Recorded id record eos final) :
    HoldsMap sha pairs (Function.update map pair
      (record.map fun t => (t.payer, t.value))) final where
  ready := recorded.ready
  agrees := by
    intro tested isTested
    rcases separated.hashed tested isTested with ⟨testedId, testedHashed⟩
    rw [readMap_of_hashKey testedHashed, recorded.rows]
    by_cases same : id = testedId
    · rw [← same] at testedHashed
      have isTested : pair = tested :=
        separated.different pair isPair tested isTested id hashed testedHashed
      rw [if_pos same, ← isTested, Function.update_self]
    · have differ : tested ≠ pair := by
        intro isPair
        rw [isPair, hashed] at testedHashed
        exact same (Except.ok.inj testedHashed)
      rw [if_neg same, Function.update_of_ne differ,
        ← holds.agrees tested isTested, readMap_of_hashKey testedHashed]

namespace KeyCall

/-- What one call returns and leaves. -/
structure Simulates (sha : Bytes → Sha256) (ndebug : Bool)
    (pairs : List (Sha256 × Key type)) (map : KeyMap type) (eos : EosDb)
    (call : KeyCall type) : Prop where
  behaves : call.BehavesAs sha ndebug eos map
  holds : ∀ next, call.step sha ndebug eos = some next →
    HoldsMap sha pairs (call.after ndebug map) next

variable {call : KeyCall type}

/-- A call that returns. -/
theorem Simulates.of_ok {found : Option (Sha256 × Bytes)} {next : KeyMap type}
    (onMap : call.onMap ndebug map = .ok (found, next))
    (returned : call.run sha ndebug eos = .ok found final)
    (holds : HoldsMap sha pairs next final) :
    Simulates sha ndebug pairs map eos call where
  behaves := by
    rw [BehavesAs, onMap]
    exact ⟨final, returned⟩
  holds := by
    intro left stepped
    rw [step, returned] at stepped
    cases stepped
    rw [after, onMap]
    exact holds

/-- A call that fails, here and there. -/
theorem Simulates.of_error {fault : Fault}
    (onMap : call.onMap ndebug map = .error fault)
    (failed : call.run sha ndebug eos = .error fault eos)
    (holds : HoldsMap sha pairs map eos) :
    Simulates sha ndebug pairs map eos call where
  behaves := by
    rw [BehavesAs, onMap]
    exact failed
  holds := by
    intro left stepped
    rw [step, failed, survive] at stepped
    split at stepped
    · cases stepped
      rw [after, onMap]
      exact holds
    · cases stepped

/-- One call, case by case. -/
theorem simulates (holds : HoldsMap sha pairs map eos)
    (separated : Separated sha pairs) (isPair : call.pair ∈ pairs) :
    Simulates sha ndebug pairs map eos call := by
  rcases separated.hashed call.pair isPair with ⟨id, hashed⟩
  have reads := (readMap_of_hashKey hashed).symm.trans
    (holds.agrees call.pair isPair)
  cases call with
  | find scope key =>
      have found := dbFindByKey_of_hashKey holds.ready hashed
      apply Simulates.of_ok rfl _ holds
      apply (bind_apply_of_ok _ found).trans
      exact congrArg (EStateM.Result.ok · eos) reads
  | store scope key payer buffer block =>
      cases kept : map (scope, key) with
      | none =>
          have absent : (eos.db.rows .tableKey).rows[id]? = none :=
            Option.map_eq_none_iff.mp (reads.trans kept)
          rcases dbStoreByKey_of_absent holds.ready hashed absent with
            ⟨final, stored, recorded⟩
          apply Simulates.of_ok _ (bind_apply_of_ok _ stored)
            (holds.of_recorded separated isPair hashed recorded)
          rw [onMap, kept]
          rfl
      | some record =>
          have present : (eos.db.rows .tableKey).rows[id]? ≠ none := by
            intro absent
            rw [absent] at reads
            cases reads.trans kept
          have failed : dbStoreByKey sha ndebug scope key payer buffer block
              eos = _ := dbStoreByKey_of_present holds.ready hashed present
          apply Simulates.of_error _ (bind_apply_of_error _ failed) holds
          rw [onMap, kept]
  | update scope key payer buffer =>
      cases kept : map (scope, key) with
      | none =>
          have absent : (eos.db.rows .tableKey).rows[id]? = none :=
            Option.map_eq_none_iff.mp (reads.trans kept)
          have failed : dbUpdateByKey sha ndebug scope key payer buffer eos =
              _ := dbUpdateByKey_of_absent holds.ready hashed absent
          apply Simulates.of_error _ (bind_apply_of_error _ failed) holds
          rw [onMap, kept]
      | some record =>
          rcases Option.map_eq_some_iff.mp (reads.trans kept) with
            ⟨old, found, _⟩
          rcases dbUpdateByKey_of_present holds.ready hashed found with
            ⟨final, updated, recorded⟩
          apply Simulates.of_ok _ (bind_apply_of_ok _ updated)
            (holds.of_recorded separated isPair hashed recorded)
          rw [onMap, kept]
          rfl
  | remove scope key =>
      cases kept : map (scope, key) with
      | none =>
          have absent : (eos.db.rows .tableKey).rows[id]? = none :=
            Option.map_eq_none_iff.mp (reads.trans kept)
          have failed : dbRemoveByKey sha ndebug scope key eos = _ :=
            dbRemoveByKey_of_absent holds.ready hashed absent
          apply Simulates.of_error _ (bind_apply_of_error _ failed) holds
          rw [onMap, kept]
      | some record =>
          rcases Option.map_eq_some_iff.mp (reads.trans kept) with
            ⟨old, found, _⟩
          rcases dbRemoveByKey_of_present holds.ready hashed found with
            ⟨final, removed, recorded⟩
          apply Simulates.of_ok _ (bind_apply_of_ok _ removed)
            (holds.of_recorded separated isPair hashed recorded)
          rw [onMap, kept]
          rfl

/-- The calls up to here. -/
theorem holdsMap_run (separated : Separated sha pairs)
    {calls : List (KeyCall type)} (arePairs : ∀ call ∈ calls, call.pair ∈ pairs)
    (holds : HoldsMap sha pairs map eos)
    (ran : Runs.run (step sha ndebug) eos calls = some final) :
    HoldsMap sha pairs (calls.foldl (after ndebug) map) final := by
  induction calls generalizing map eos with
  | nil =>
      cases ran
      exact holds
  | cons call rest inductionHypothesis =>
      rw [Runs.run_cons] at ran
      rcases Option.bind_eq_some_iff.mp ran with ⟨next, stepped, later⟩
      have simulated : Simulates sha ndebug pairs map eos call :=
        simulates holds separated (arePairs call List.mem_cons_self)
      have restPairs : ∀ call ∈ rest, call.pair ∈ pairs := by
        intro other member
        exact arePairs other (List.mem_cons_of_mem call member)
      exact inductionHypothesis restPairs (simulated.holds next stepped) later

end KeyCall

end Maps

/-- After any calls with keys of one type, the next call does on the database
what it does on the map that the calls make. -/
theorem key_calls_are_map (sha : Bytes → Sha256) (ndebug : Bool)
    {type : KeyType} (start reached : EosDb) (calls : List (KeyCall type))
    (next : KeyCall type) (ready : start.db.Ready)
    (accepted : ∀ call ∈ next :: calls, Accepted call.pair.2)
    (collisionFree : CollisionFree sha ((next :: calls).flatMap fun call =>
      hashedStrings sha call.pair.1 call.pair.2))
    (ran : Runs.run (KeyCall.step sha ndebug) start calls = some reached) :
    next.BehavesAs sha ndebug reached
      (calls.foldl (KeyCall.after ndebug) (readMap sha start)) := by
  have acceptedPairs : ∀ pair ∈ (next :: calls).map KeyCall.pair,
      Accepted pair.2 := by
    intro pair member
    rcases List.mem_map.mp member with ⟨call, isCall, isPair⟩
    rw [← isPair]
    exact accepted call isCall
  have separated : Separated sha ((next :: calls).map KeyCall.pair) := by
    apply Separated.of_collisionFree acceptedPairs
    rw [List.flatMap_map]
    exact collisionFree
  have holds := KeyCall.holdsMap_run separated
    (fun call member =>
      List.mem_map_of_mem (List.mem_cons_of_mem next member))
    ⟨ready, fun _ _ => rfl⟩ ran
  exact (KeyCall.simulates holds separated
    (List.mem_map_of_mem List.mem_cons_self)).behaves

/-! ## A record of the string "key" -/

/-- The record is stored, changed, removed and stored again. -/
def keyStringCalls : List (KeyCall .stdString) :=
  [.store 0 keyString 1 [10] ⟨16, 0⟩, .update 0 keyString 2 [20, 30],
    .remove 0 keyString, .store 0 keyString 3 [40] ⟨48, 0⟩]

theorem key_calls_are_map_keyString :
    ∃ reached, Runs.run (KeyCall.step someSha false)
        (ofDatabase emptyTables fun _ _ => 0) keyStringCalls = some reached ∧
      (KeyCall.find 0 keyString).BehavesAs someSha false reached
        (keyStringCalls.foldl (KeyCall.after false) (readMap someSha
          (ofDatabase emptyTables fun _ _ => 0))) := by
  have collisionFree : ∀ left ∈ (KeyCall.find 0 keyString ::
        keyStringCalls).flatMap fun call =>
          hashedStrings someSha call.pair.1 call.pair.2,
      ∀ right ∈ (KeyCall.find 0 keyString :: keyStringCalls).flatMap fun call =>
          hashedStrings someSha call.pair.1 call.pair.2,
      someSha left = someSha right → left = right := by
    decide +kernel
  have survives : (Runs.run (KeyCall.step someSha false)
      (ofDatabase emptyTables fun _ _ => 0) keyStringCalls).isSome = true := by
    decide +kernel
  rcases Option.isSome_iff_exists.mp survives with ⟨reached, ran⟩
  have onePair : ∀ call ∈ KeyCall.find 0 keyString :: keyStringCalls,
      call.pair = (0, keyString) := by
    decide
  have short : keyString.length < 2 ^ 32 := by
    decide
  have accepted : ∀ call ∈ KeyCall.find 0 keyString :: keyStringCalls,
      Accepted call.pair.2 := by
    intro call member
    rw [onePair call member]
    exact short
  exact ⟨reached, ran, key_calls_are_map someSha false _ reached keyStringCalls
    (.find 0 keyString) emptyTables_ready accepted collisionFree ran⟩

/-- Without assertions, `db_update_by_key` and `db_remove_by_key` of a key that
has no record do not fail: they follow a null pointer. -/
theorem absent_record_is_undefined :
    dbUpdateByKey someSha true 0 keyString 1 [10]
        (ofDatabase emptyTables fun _ _ => 0) =
      .error .undefined (ofDatabase emptyTables fun _ _ => 0) ∧
    dbRemoveByKey someSha true 0 keyString
        (ofDatabase emptyTables fun _ _ => 0) =
      .error .undefined (ofDatabase emptyTables fun _ _ => 0) ∧
    Fault.undefined.isException = false := by
  have short : Accepted keyString := show keyString.length < 2 ^ 32 by decide
  have hashes : ∃ id, hashKey someSha 0 keyString = .ok id :=
    exists_hashKey short
  rcases hashes with ⟨id, hashed⟩
  have absent : ((ofDatabase emptyTables fun _ _ => 0).db.rows
      .tableKey).rows[id]? = none :=
    Std.ExtTreeMap.getElem?_empty
  have updates : dbUpdateByKey someSha true 0 keyString 1 [10] _ = _ :=
    dbUpdateByKey_of_absent emptyTables_ready hashed absent
  have removes : dbRemoveByKey someSha true 0 keyString _ = _ :=
    dbRemoveByKey_of_absent emptyTables_ready hashed absent
  exact ⟨updates, removes, rfl⟩

end StateDatabase
