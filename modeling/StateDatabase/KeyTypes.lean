import Mathlib
import StateDatabase.RowSteps

/-!
# Keys of different types

The overloads of `fc::sha256::hash` take different bytes of a key: the text of
a `std::string` as it is, the text of a `const char*` with its length in front,
the four bytes of an `int`.  So a text has two records, one for each type that
can carry it, and a `std::string` can consist of the bytes of another key.

SHA-256 is assumed to tell apart the byte strings that two calls hash.
-/

namespace StateDatabase

open Programs Packing EosDb

/-- The same text or the same number. -/
def SameKey : {left right : KeyType} → Key left → Key right → Prop
  | .int, .int, number, other => number = other
  | .cString, .cString, text, other => text = other
  | .stdString, .stdString, text, other => text = other
  | .cString, .stdString, text, other => text.1 = other
  | .stdString, .cString, text, other => text = other.1
  | .int, .cString, _, _ => False
  | .int, .stdString, _, _ => False
  | .cString, .int, _, _ => False
  | .stdString, .int, _, _ => False

/-- The bytes of a `std::string` that are hashed: its length is passed as a
`uint32_t`. -/
def hashedText (text : Bytes) : Bytes :=
  text.take (text.length % 2 ^ 32)

/-- The four bytes of an `int` are not those of the string. -/
def NumberApart (number : Int32) (text : Bytes) : Prop :=
  littleEndian 4 number.toUInt32.toNat ≠ text

/-- The texts differ, and the string is not the other text with its length in
front. -/
def TextApart (text : { text : Bytes // 0 ∉ text }) (other : Bytes) : Prop :=
  text.1 ≠ other ∧ (text.1.length ≤ maxSizeOfByteArrays →
    varint 10 text.1.length ++ text.1 ≠ hashedText other)

/-- Two keys whose bytes are the same only if the keys are, and the other way
round. -/
def Distinguished : {left right : KeyType} → Key left → Key right → Prop
  | .int, .int, _, _ => True
  | .cString, .cString, _, _ => True
  | .stdString, .stdString, text, other =>
      text = other ∨ hashedText text ≠ hashedText other
  | .cString, .stdString, text, other => TextApart text other
  | .stdString, .cString, other, text => TextApart text other
  | .int, .cString, number, text => NumberApart number (3 :: text.1)
  | .cString, .int, text, number => NumberApart number (3 :: text.1)
  | .int, .stdString, number, text => NumberApart number (hashedText text)
  | .stdString, .int, text, number => NumberApart number (hashedText text)

/-! ## The bytes of a key -/

section Packed

theorem number_inj {number other : Int32}
    (same : littleEndian 4 number.toUInt32.toNat =
      littleEndian 4 other.toUInt32.toNat) : number = other := by
  have sameNat := littleEndian_inj (number.toUInt32.toNat_lt)
    (other.toUInt32.toNat_lt) same
  cases number
  cases other
  exact congrArg Int32.ofUInt32 (UInt32.toNat_inj.mp sameNat)

theorem varint_ne_nil (groups value : Nat) : varint (groups + 1) value ≠ [] := by
  rw [varint]
  split
  · exact List.cons_ne_nil _ _
  · exact List.cons_ne_nil _ _

variable {text other : Bytes}

/-- A text that can be packed is shorter than what the length prefix can
hold. -/
theorem packedText_inj (small : text.length ≤ maxSizeOfByteArrays)
    (small' : other.length ≤ maxSizeOfByteArrays)
    (same : varint 10 text.length ++ text = varint 10 other.length ++ other) :
    text = other := by
  rw [maxSizeOfByteArrays] at small small'
  exact (varint_append_inj (by omega) (by omega) same).2

/-- The length in front makes a difference. -/
theorem packedText_ne_hashedText (small : text.length ≤ maxSizeOfByteArrays) :
    varint 10 text.length ++ text ≠ hashedText text := by
  rw [maxSizeOfByteArrays] at small
  rw [hashedText, Nat.mod_eq_of_lt (by omega), List.take_length]
  intro same
  have lengths := congrArg List.length same
  have nonempty : 0 < (varint 10 text.length).length :=
    List.length_pos_of_ne_nil (varint_ne_nil 9 text.length)
  rw [List.length_append] at lengths
  omega

/-- A packed text of four bytes has three characters. -/
theorem number_eq_packedText_iff {number : Nat} :
    littleEndian 4 number = varint 10 text.length ++ text ↔
      littleEndian 4 number = 3 :: text := by
  constructor
  · intro same
    have lengths := congrArg List.length same
    rw [littleEndian_length, List.length_append] at lengths
    have nonempty : 0 < (varint 10 text.length).length :=
      List.length_pos_of_ne_nil (varint_ne_nil 9 text.length)
    have single : varint 10 text.length = [UInt8.ofNat text.length] := by
      rw [varint, if_pos (by omega), Nat.mod_eq_of_lt (by omega)]
    rw [single, List.length_singleton] at lengths
    have isThree : text.length = 3 := by omega
    rw [same, single, isThree]
    rfl
  · intro same
    have lengths := congrArg List.length same
    rw [littleEndian_length, List.length_cons] at lengths
    have isThree : text.length = 3 := by omega
    rw [same, isThree]
    rfl

end Packed

/-! ## Keys and their bytes -/

section Keys

variable {left right : KeyType} {key : Key left} {other : Key right}
  {bytes otherBytes : Bytes}

theorem packKey_cString {text : Key .cString} (packed : packKey text = .ok bytes) :
    text.1.length ≤ maxSizeOfByteArrays ∧
      bytes = varint 10 text.1.length ++ text.1 := by
  rw [packKey] at packed
  split at packed
  · cases packed
    exact ⟨by assumption, rfl⟩
  · cases packed

/-- The bytes of two keys agree exactly when the keys do, for distinguished
keys only. -/
theorem sameBytes_iff_sameKey_iff (packed : packKey key = .ok bytes)
    (packed' : packKey other = .ok otherBytes) :
    (bytes = otherBytes ↔ SameKey key other) ↔ Distinguished key other := by
  cases left with
  | int =>
      cases packed
      cases right with
      | int =>
          cases packed'
          refine iff_of_true ⟨number_inj, ?_⟩ trivial
          intro same
          rw [show key = other from same]
      | cString =>
          obtain ⟨_, rfl⟩ := packKey_cString packed'
          rw [number_eq_packedText_iff]
          exact iff_of_eq (iff_false _)
      | stdString =>
          cases packed'
          exact iff_of_eq (iff_false _)
  | cString =>
      obtain ⟨small, rfl⟩ := packKey_cString packed
      cases right with
      | int =>
          cases packed'
          rw [eq_comm, number_eq_packedText_iff]
          exact iff_of_eq (iff_false _)
      | cString =>
          obtain ⟨small', rfl⟩ := packKey_cString packed'
          refine iff_of_true ⟨?_, ?_⟩ trivial
          · intro same
            exact Subtype.ext (packedText_inj small small' same)
          · intro same
            rw [show key = other from same]
      | stdString =>
          cases packed'
          constructor
          · intro agree
            have differ : key.1 ≠ other := by
              intro same
              have sameBytes := agree.mpr same
              rw [← show key.1 = other from same] at sameBytes
              exact packedText_ne_hashedText small sameBytes
            exact ⟨differ, fun _ same => differ (agree.mp same)⟩
          · rintro ⟨differ, apart⟩
            exact iff_of_false (apart small) differ
  | stdString =>
      cases packed
      cases right with
      | int =>
          cases packed'
          rw [eq_comm]
          exact iff_of_eq (iff_false _)
      | cString =>
          obtain ⟨small, rfl⟩ := packKey_cString packed'
          constructor
          · intro agree
            have differ : other.1 ≠ key := by
              intro same
              have sameBytes := agree.mpr same.symm
              rw [← show other.1 = key from same] at sameBytes
              exact packedText_ne_hashedText small sameBytes.symm
            exact ⟨differ, fun _ same => differ (agree.mp same.symm).symm⟩
          · rintro ⟨differ, apart⟩
            exact iff_of_false (fun same => apart small same.symm)
              (fun same => differ same.symm)
      | stdString =>
          cases packed'
          constructor
          · intro agree
            by_cases same : key = other
            · exact Or.inl same
            · exact Or.inr fun sameBytes => same (agree.mp sameBytes)
          · rintro (same | apart)
            · refine iff_of_true ?_ same
              rw [show key = other from same]
            · refine iff_of_false apart ?_
              intro same
              rw [show key = other from same] at apart
              exact apart rfl

/-- A key that cannot be packed is different from one that can, unless that is
a `std::string` with its text. -/
theorem notSameKey_iff {fault : Fault} (packed : packKey key = .ok bytes)
    (failed : packKey other = .error fault) :
    ¬ SameKey key other ↔ Distinguished key other := by
  cases right with
  | int => cases failed
  | stdString => cases failed
  | cString =>
      have long : ¬ other.1.length ≤ maxSizeOfByteArrays := by
        intro small
        rw [packKey, if_pos small] at failed
        cases failed
      cases left with
      | int =>
          refine iff_of_true not_false ?_
          intro same
          have lengths := congrArg List.length same
          rw [littleEndian_length, List.length_cons] at lengths
          apply long
          rw [maxSizeOfByteArrays]
          omega
      | cString =>
          obtain ⟨small, _⟩ := packKey_cString packed
          refine iff_of_true ?_ trivial
          intro same
          rw [show key = other from same] at small
          exact long small
      | stdString =>
          constructor
          · intro differ
            exact ⟨fun same => differ same.symm, fun small => (long small).elim⟩
          · rintro ⟨differ, _⟩ same
            exact differ same.symm

end Keys

/-! ## Records -/

section Records

variable (sha : Bytes → Sha256) (scope : Sha256)

/-- The byte strings that are hashed for a key. -/
def hashedStrings {type : KeyType} (key : Key type) : List Bytes :=
  match packKey key with
  | .ok packed => [packed, hashBytes scope ++ hashBytes (sha packed)]
  | .error _ => []

/-- The hash tells these byte strings apart. -/
def CollisionFree (strings : List Bytes) : Prop :=
  ∀ left ∈ strings, ∀ right ∈ strings, sha left = sha right → left = right

theorem hashBytes_inj {hash other : Sha256}
    (same : hashBytes hash = hashBytes other) : hash = other := by
  have sameNat : hash.toNat = other.toNat :=
    @littleEndian_inj 32 _ _ hash.isLt other.isLt (List.reverse_inj.mp same)
  exact BitVec.eq_of_toNat_eq sameNat

variable {sha} {scope} {leftType rightType : KeyType} {left : Key leftType}
  {right : Key rightType}

/-- Without collisions, keys with the same hash have the same bytes. -/
theorem hashKey_eq_iff {bytes otherBytes : Bytes}
    (packed : packKey left = .ok bytes)
    (packed' : packKey right = .ok otherBytes)
    (collisionFree : CollisionFree sha
      (hashedStrings sha scope left ++ hashedStrings sha scope right)) :
    tableKeyOf sha scope (sha bytes) = tableKeyOf sha scope (sha otherBytes) ↔
      bytes = otherBytes := by
  rw [hashedStrings, packed, hashedStrings, packed'] at collisionFree
  constructor
  · intro same
    have samePair := collisionFree _ (by simp) _ (by simp) same
    have sameHash := hashBytes_inj (List.append_cancel_left samePair)
    exact collisionFree _ (by simp) _ (by simp) sameHash
  · intro same
    rw [same]

variable {ndebug : Bool} {payer : Sha256} {buffer : Bytes} {block : Block}
  {eos after : EosDb}

/-- The record of a key is stored under the hash of its bytes. -/
theorem dbStoreByKey_ok (ready : eos.db.Ready)
    (stored : dbStoreByKey sha ndebug scope left payer buffer block eos =
      .ok ⟨⟩ after) :
    ∃ bytes, packKey left = .ok bytes ∧ after.db.Ready ∧
      (after.db.rows .tableKey).rows[tableKeyOf sha scope (sha bytes)]? =
        some ⟨tableKeyOf sha scope (sha bytes), payer, buffer⟩ := by
  obtain ⟨tableKey, middle, hashes, rest⟩ := bind_apply_ok stored
  cases packed : packKey left with
  | error fault =>
      rw [hashKey, packed] at hashes
      cases hashes
  | ok bytes =>
      rw [hashKey, packed] at hashes
      cases hashes
      have looks : indices .tableKey eos = _ := indices_apply ready .tableKey
      rw [bind_apply_of_ok _ looks] at rest
      split at rest
      · cases rest
      · refine ⟨bytes, rfl, ?_⟩
        have creates : create .tableKey block
            ⟨tableKeyOf sha scope (sha bytes), payer, buffer⟩ eos =
              .ok ⟨⟩ after := rest
        cases attempt : (eos.db.rows .tableKey).emplace
            ⟨tableKeyOf sha scope (sha bytes), payer, buffer⟩ with
        | none =>
            have failed : create .tableKey block
                ⟨tableKeyOf sha scope (sha bytes), payer, buffer⟩ eos = _ :=
              create_none ready attempt
            rw [failed] at creates
            cases creates
        | some inserted =>
            obtain ⟨db, created, wrote⟩ : ∃ db, create .tableKey block
                ⟨tableKeyOf sha scope (sha bytes), payer, buffer⟩ eos = _ ∧ _ :=
              create_some ready attempt
            rw [created] at creates
            cases creates
            refine ⟨wrote.ready, ?_⟩
            simp only [wrote.rows, Function.update_self]
            exact ((MultiIndex.emplace_some attempt).2 _).trans (if_pos rfl)

/-- `db_find_by_key` looks the hash up. -/
theorem dbFindByKey_apply {bytes : Bytes} (ready : eos.db.Ready)
    (packed : packKey right = .ok bytes) :
    dbFindByKey sha scope right eos =
      .ok (eos.db.rows .tableKey).rows[tableKeyOf sha scope (sha bytes)]?
        eos := by
  have hashes : hashKey sha scope right =
      .ok (tableKeyOf sha scope (sha bytes)) := by
    rw [hashKey, packed]
    rfl
  have looks : indices .tableKey eos = _ := indices_apply ready .tableKey
  rw [dbFindByKey, hashes]
  exact bind_apply_of_ok _ looks

end Records

/-- The call finds the record that was stored with the first key if and only if
both keys are the same text or number; this holds exactly for distinguished
keys. -/
theorem record_found_iff_sameKey_iff (sha : Bytes → Sha256) (ndebug : Bool)
    (scope payer : Sha256) (buffer : Bytes) (block : Block)
    {leftType rightType : KeyType} (left : Key leftType)
    (right : Key rightType) (eos after : EosDb) (ready : eos.db.Ready)
    (stored : dbStoreByKey sha ndebug scope left payer buffer block eos =
      .ok ⟨⟩ after)
    (collisionFree : CollisionFree sha
      (hashedStrings sha scope left ++ hashedStrings sha scope right)) :
    ((∃ id final, hashKey sha scope left = .ok id ∧
        dbFindByKey sha scope right after =
          .ok (some ⟨id, payer, buffer⟩) final) ↔ SameKey left right) ↔
      Distinguished left right := by
  obtain ⟨bytes, packed, afterReady, found⟩ := dbStoreByKey_ok ready stored
  have hashes : hashKey sha scope left =
      .ok (tableKeyOf sha scope (sha bytes)) := by
    rw [hashKey, packed]
    rfl
  cases packed' : packKey right with
  | error fault =>
      have failed : dbFindByKey sha scope right after =
          .error fault after := by
        rw [dbFindByKey, hashKey, packed']
        rfl
      have notFound : ¬ ∃ id final, hashKey sha scope left = .ok id ∧
          dbFindByKey sha scope right after =
            .ok (some ⟨id, payer, buffer⟩) final := by
        rintro ⟨id, final, _, finds⟩
        rw [failed] at finds
        cases finds
      rw [iff_false_left notFound]
      exact notSameKey_iff packed packed'
  | ok otherBytes =>
      rw [← sameBytes_iff_sameKey_iff packed packed',
        ← hashKey_eq_iff packed packed' collisionFree]
      have finds : (∃ id final, hashKey sha scope left = .ok id ∧
          dbFindByKey sha scope right after =
            .ok (some ⟨id, payer, buffer⟩) final) ↔
          tableKeyOf sha scope (sha bytes) =
            tableKeyOf sha scope (sha otherBytes) := by
        rw [hashes, dbFindByKey_apply afterReady packed']
        constructor
        · rintro ⟨id, final, isId, isRecord⟩
          cases isId
          obtain ⟨isRow, _⟩ := EStateM.Result.ok.inj isRecord
          exact (after.db.rows .tableKey).keyed isRow
        · intro same
          rw [← same, found]
          exact ⟨_, _, rfl, rfl⟩
      rw [finds]

/-! ## Some keys -/

/-- The SHA-256 digests of "key", of its packed form and of the number 7. -/
def textDigest : Sha256 :=
  0x2c70e12b7a0646f92279f427c7b38e7334d8e5389cff167a1dc30e73f826b683

def packedDigest : Sha256 :=
  0x658cc89de2b0b16a211692151380f4ede35c7df377c075aa8120998766b9e466

def numberDigest : Sha256 :=
  0xe8613f5a5bc9f9feeda32a8e7c80b69dd4878e47b6a91723fb15eb84236b6a2b

/-- These digests, and those of the pairs with scope 0. -/
def digests : List (Bytes × Sha256) :=
  [([107, 101, 121], textDigest),
    ([3, 107, 101, 121], packedDigest),
    ([7, 0, 0, 0], numberDigest),
    (hashBytes 0 ++ hashBytes textDigest,
      0x0ea269a4fb424fa2a658d5fb33126d8d614e7f1fea08e09fcbcd395986ca54fe),
    (hashBytes 0 ++ hashBytes packedDigest,
      0xed9716afe18955345041a5133399c23d98e6cf1b7526b67619278e6d32038201),
    (hashBytes 0 ++ hashBytes numberDigest,
      0x5825f74cc79759bc0c5b62d8a0a2639e4b5e7f7bf9318a56156bb983efc6dda5)]

/-- SHA-256 on these strings. -/
def someSha (text : Bytes) : Sha256 :=
  (digests.lookup text).getD 0

def seven : Key .int := 7

/-- "key" as a `const char*` -/
def keyCString : Key .cString := ⟨[107, 101, 121], by decide⟩

/-- "key" as a `std::string` -/
def keyString : Key .stdString := [107, 101, 121]

/-- the characters 3, 'k', 'e' and 'y' -/
def packedString : Key .stdString := [3, 107, 101, 121]

/-- There is no record of this key. -/
def findsNothing {type : KeyType} (key : Key type) (eos : EosDb) : Bool :=
  match dbFindByKey someSha 0 key eos with
  | .ok none _ => true
  | _ => false

/-- What a test of the database after a store shows. -/
theorem exists_stored {type : KeyType} {key : Key type}
    {test : EosDb → Bool}
    (passes : (match dbStoreByKey someSha false 0 key 1 [10] ⟨16, 0⟩
      (ofDatabase emptyTables fun _ _ => 0) with
      | .ok _ after => test after
      | .error _ _ => false) = true) :
    ∃ after, dbStoreByKey someSha false 0 key 1 [10] ⟨16, 0⟩
        (ofDatabase emptyTables fun _ _ => 0) = .ok ⟨⟩ after ∧
      test after = true := by
  split at passes
  · rename_i after stored
    exact ⟨after, stored, passes⟩
  · cases passes

/-- The number 7 and the string "key". -/
theorem record_found_iff_sameKey_iff_number :
    ∃ after, dbStoreByKey someSha false 0 seven 1 [10] ⟨16, 0⟩
        (ofDatabase emptyTables fun _ _ => 0) = .ok ⟨⟩ after ∧
      ((∃ id final, hashKey someSha 0 seven = .ok id ∧
        dbFindByKey someSha 0 keyString after =
          .ok (some ⟨id, 1, [10]⟩) final) ↔ SameKey seven keyString) := by
  obtain ⟨after, stored, _⟩ : ∃ after, dbStoreByKey someSha false 0 seven 1
      [10] ⟨16, 0⟩ (ofDatabase emptyTables fun _ _ => 0) = .ok ⟨⟩ after ∧
        (fun _ => true) after = true :=
    exists_stored (by decide +kernel)
  have collisionFree : ∀ left ∈ hashedStrings someSha 0 seven ++
        hashedStrings someSha 0 keyString,
      ∀ right ∈ hashedStrings someSha 0 seven ++
        hashedStrings someSha 0 keyString,
      someSha left = someSha right → left = right := by
    decide +kernel
  have apart : littleEndian 4 seven.toUInt32.toNat ≠ hashedText keyString := by
    decide +kernel
  exact ⟨after, stored, (record_found_iff_sameKey_iff _ _ _ _ _ _ _ _ _ _
    emptyTables_ready stored collisionFree).mpr apart⟩

/-- A record is stored with the `const char*` "key".  The `std::string` "key"
does not find it, and the `std::string` of its packed bytes does. -/
theorem text_has_two_records :
    ∃ after, dbStoreByKey someSha false 0 keyCString 1 [10] ⟨16, 0⟩
        (ofDatabase emptyTables fun _ _ => 0) = .ok ⟨⟩ after ∧
      SameKey keyCString keyString ∧
      dbFindByKey someSha 0 keyString after = .ok none after ∧
      ¬ SameKey keyCString packedString ∧
      ∃ id, hashKey someSha 0 keyCString = .ok id ∧
        dbFindByKey someSha 0 packedString after =
          .ok (some ⟨id, 1, [10]⟩) after := by
  obtain ⟨after, stored, test⟩ : ∃ after, dbStoreByKey someSha false 0
      keyCString 1 [10] ⟨16, 0⟩ (ofDatabase emptyTables fun _ _ => 0) =
        .ok ⟨⟩ after ∧ findsNothing keyString after = true :=
    exists_stored (by decide +kernel)
  obtain ⟨bytes, packed, afterReady, found⟩ :=
    dbStoreByKey_ok emptyTables_ready stored
  cases packed
  have finds : dbFindByKey someSha 0 keyString after = _ :=
    dbFindByKey_apply afterReady rfl
  have findsPacked : dbFindByKey someSha 0 packedString after = _ :=
    dbFindByKey_apply afterReady rfl
  have differ : keyCString.1 ≠ packedString := by decide
  have sameBytes : packedString.take (packedString.length % 2 ^ 32) =
      varint 10 keyCString.1.length ++ keyCString.1 := by
    decide +kernel
  refine ⟨after, stored, rfl, ?_, differ, _, rfl, ?_⟩
  · rw [findsNothing] at test
    split at test
    · rename_i final found'
      rw [finds] at found' ⊢
      obtain ⟨isNone, _⟩ := EStateM.Result.ok.inj found'
      rw [isNone]
    · cases test
  · rw [findsPacked, sameBytes, found]

end StateDatabase
