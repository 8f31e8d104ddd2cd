import ZanoP2pool.Foundation.Effect
import ZanoP2pool.Foundation.Format
import ZanoP2pool.ShareCodec

namespace ZanoP2pool

open Foundation

/-!
# Canonical share bytes

The parser accepts exactly the byte strings the serializer produces, so a share
has one encoding and one identity.  Which strings these are is said by position:
the marker, the version with its size, and the miner identity of version 2.
-/

section Fields

variable {bytes rest : List UInt8}

theorem hashBytes_ofNat
    {value : Nat}
    (fits : value < 256 ^ 32) :
    hashBytes (BitVec.ofNat 256 value) = bigEndian 32 value := by
  have small : value < 2 ^ 256 := by
    norm_num at fits ⊢
    exact fits
  rw [hashBytes, BitVec.toNat_ofNat, Nat.mod_eq_of_lt small]

theorem readHash_eq_ok
    {hash : Hash256} :
    readHash bytes = .ok (hash, rest) ↔ bytes = hashBytes hash ++ rest := by
  constructor
  · intro read
    unfold readHash at read
    obtain ⟨value, middle, taken, returned⟩ := cursor_bind_eq_ok.mp read
    obtain ⟨rfl, rfl⟩ := cursor_pure_eq_ok.mp returned
    obtain ⟨fits, rfl⟩ := takeBigEndian_eq_ok.mp taken
    rw [hashBytes_ofNat fits]
  · rintro rfl
    exact readHash_hashBytes hash rest

theorem readDifficulty_eq_ok
    {difficulty : Difficulty128} :
    readDifficulty bytes = .ok (difficulty, rest) ↔
      bytes = difficultyBytes difficulty ++ rest := by
  constructor
  · intro read
    unfold readDifficulty at read
    obtain ⟨value, middle, taken, returned⟩ := cursor_bind_eq_ok.mp read
    obtain ⟨rfl, rfl⟩ := cursor_pure_eq_ok.mp returned
    obtain ⟨fits, rfl⟩ := takeBigEndian_eq_ok.mp taken
    have small : value < 2 ^ 128 := by
      norm_num at fits ⊢
      exact fits
    rw [difficultyBytes, BitVec.toNat_ofNat, Nat.mod_eq_of_lt small]
  · rintro rfl
    exact readDifficulty_difficultyBytes difficulty rest

theorem readU64Be_eq_ok
    {value : UInt64} :
    readU64Be bytes = .ok (value, rest) ↔
      bytes = appendU64Be value ++ rest := by
  constructor
  · intro read
    unfold readU64Be at read
    obtain ⟨number, middle, taken, returned⟩ := cursor_bind_eq_ok.mp read
    obtain ⟨rfl, rfl⟩ := cursor_pure_eq_ok.mp returned
    obtain ⟨fits, rfl⟩ := takeBigEndian_eq_ok.mp taken
    have small : number < 2 ^ 64 := by
      norm_num at fits ⊢
      exact fits
    rw [appendU64Be, UInt64.toNat_ofNat_of_lt' small]
  · rintro rfl
    exact readU64Be_appendU64Be value rest

/-- Enough bytes start with a 32-byte array. -/
theorem exists_hashBytes
    (long : 32 ≤ bytes.length) :
    ∃ hash later, bytes = hashBytes hash ++ later ∧
      later.length + 32 = bytes.length := by
  have sized : (bytes.take 32).length = 32 := by
    rw [List.length_take]
    omega
  have fits := ofBigEndian_lt (bytes.take 32)
  have encoded := bigEndian_ofBigEndian (bytes.take 32)
  rw [sized] at fits encoded
  refine ⟨BitVec.ofNat 256 (ofBigEndian (bytes.take 32)), bytes.drop 32, ?_,
    by rw [List.length_drop]; omega⟩
  rw [hashBytes_ofNat fits, encoded, List.take_append_drop]

theorem exists_difficultyBytes
    (long : 16 ≤ bytes.length) :
    ∃ difficulty later, bytes = difficultyBytes difficulty ++ later ∧
      later.length + 16 = bytes.length := by
  have sized : (bytes.take 16).length = 16 := by
    rw [List.length_take]
    omega
  have fits := ofBigEndian_lt (bytes.take 16)
  have encoded := bigEndian_ofBigEndian (bytes.take 16)
  rw [sized] at fits encoded
  have small : ofBigEndian (bytes.take 16) < 2 ^ 128 := by
    norm_num at fits ⊢
    exact fits
  refine ⟨BitVec.ofNat 128 (ofBigEndian (bytes.take 16)), bytes.drop 16, ?_,
    by rw [List.length_drop]; omega⟩
  rw [difficultyBytes, BitVec.toNat_ofNat, Nat.mod_eq_of_lt small, encoded,
    List.take_append_drop]

theorem exists_appendU64Be
    (long : 8 ≤ bytes.length) :
    ∃ value later, bytes = appendU64Be value ++ later ∧
      later.length + 8 = bytes.length := by
  have sized : (bytes.take 8).length = 8 := by
    rw [List.length_take]
    omega
  have fits := ofBigEndian_lt (bytes.take 8)
  have encoded := bigEndian_ofBigEndian (bytes.take 8)
  rw [sized] at fits encoded
  have small : ofBigEndian (bytes.take 8) < 2 ^ 64 := by
    norm_num at fits ⊢
    exact fits
  refine ⟨UInt64.ofNat (ofBigEndian (bytes.take 8)), bytes.drop 8, ?_,
    by rw [List.length_drop]; omega⟩
  rw [appendU64Be, UInt64.toNat_ofNat_of_lt' small, encoded,
    List.take_append_drop]

end Fields

variable {backend : Backend} {share : Share} {bytes : List UInt8}

/-- The fields after the version are their encodings, and the share is whole. -/
theorem readShareFields_eq_ok
    {version : UInt8}
    {rest : List UInt8}
    (supported : version = kShareVersion1 ∨ version = kShareVersion2)
    (read :
      readShareFields backend version bytes = .ok (share, rest)) :
    share.version = version ∧ Serializable backend share ∧
      kShareMagic ++ version :: bytes =
        shareFieldBytes share ++ payoutBytes share.payout ++ rest := by
  unfold readShareFields at read
  obtain ⟨parentId, bytes1, taken1, read1⟩ := cursor_bind_eq_ok.mp read
  obtain ⟨shareHeight, bytes2, taken2, read2⟩ := cursor_bind_eq_ok.mp read1
  obtain ⟨timestamp, bytes3, taken3, read3⟩ := cursor_bind_eq_ok.mp read2
  obtain ⟨zanoHeight, bytes4, taken4, read4⟩ := cursor_bind_eq_ok.mp read3
  obtain ⟨miningHeaderHash, bytes5, taken5, read5⟩ :=
    cursor_bind_eq_ok.mp read4
  obtain ⟨nonce, bytes6, taken6, read6⟩ := cursor_bind_eq_ok.mp read5
  obtain ⟨shareDifficulty, bytes7, taken7, read7⟩ :=
    cursor_bind_eq_ok.mp read6
  obtain ⟨networkDifficulty, bytes8, taken8, read8⟩ :=
    cursor_bind_eq_ok.mp read7
  obtain ⟨minerId, bytes9, taken9, read9⟩ := cursor_bind_eq_ok.mp read8
  rw [readHash_eq_ok] at taken1 taken5 taken9
  rw [readU64Be_eq_ok] at taken2 taken3 taken4 taken6
  rw [readDifficulty_eq_ok] at taken7 taken8
  clear read read1 read2 read3 read4 read5 read6 read7 read8
  dsimp only at read9
  by_cases second : version = kShareVersion2
  · rw [if_pos second] at read9
    obtain ⟨spendPublicKey, bytes10, taken10, read10⟩ :=
      cursor_bind_eq_ok.mp read9
    obtain ⟨viewPublicKey, bytes11, taken11, read11⟩ :=
      cursor_bind_eq_ok.mp read10
    rw [readHash_eq_ok] at taken10 taken11
    by_cases matching :
        minerId = minerIdFromPayout backend { spendPublicKey, viewPublicKey }
    · rw [if_neg (not_not_intro matching)] at read11
      obtain ⟨rfl, rfl⟩ := cursor_pure_eq_ok.mp read11
      refine ⟨rfl, .version2 second rfl matching, ?_⟩
      simp [shareFieldBytes, payoutBytes, taken1, taken2, taken3, taken4,
        taken5, taken6, taken7, taken8, taken9, taken10, taken11]
    · rw [if_pos matching] at read11
      obtain ⟨_, _, thrown, _⟩ := cursor_bind_eq_ok.mp read11
      exact absurd thrown cursor_throw_ne_ok
  · rw [if_neg second] at read9
    obtain ⟨rfl, rfl⟩ := cursor_pure_eq_ok.mp read9
    refine ⟨rfl, .version1 (supported.resolve_right second) rfl, ?_⟩
    simp [shareFieldBytes, payoutBytes, taken1, taken2, taken3, taken4,
      taken5, taken6, taken7, taken8, taken9]

/-- Accepted bytes are the encoding of the share they are read as. -/
theorem serializeShare_deserializeShare
    (parsed : deserializeShare backend bytes = .ok share) :
    serializeShare backend share = .ok bytes := by
  unfold deserializeShare at parsed
  by_cases short : bytes.length < 5
  · rw [if_pos short] at parsed
    cases parsed
  rw [if_neg short] at parsed
  by_cases marked : bytes.take 4 = kShareMagic
  swap
  · rw [if_pos marked] at parsed
    cases parsed
  rw [if_neg (not_not_intro marked)] at parsed
  have whole := List.take_append_drop 4 bytes
  rw [marked] at whole
  cases shape : bytes.drop 4 with
  | nil =>
      rw [shape] at parsed
      cases parsed
  | cons version rest =>
      simp only [shape] at parsed
      rw [shape] at whole
      by_cases unsupported :
          version ≠ kShareVersion1 ∧ version ≠ kShareVersion2
      · rw [if_pos unsupported] at parsed
        cases parsed
      rw [if_neg unsupported] at parsed
      have supported :
          version = kShareVersion1 ∨ version = kShareVersion2 := by
        tauto
      by_cases sized :
          bytes.length =
            if version = kShareVersion1 then kShareV1SerializedSize
            else kShareV2SerializedSize
      swap
      · rw [if_pos sized] at parsed
        cases parsed
      rw [if_neg (not_not_intro sized)] at parsed
      obtain ⟨⟨found, remaining⟩, read, parsed⟩ :=
        except_bind_eq_ok.mp parsed
      by_cases finished : remaining = []
      swap
      · simp only [if_pos finished] at parsed
        cases parsed
      simp only [if_neg (not_not_intro finished)] at parsed
      cases parsed
      obtain ⟨_, serializable, encoded⟩ :=
        readShareFields_eq_ok supported read
      rw [whole, finished, List.append_nil] at encoded
      exact serializeShare_eq_ok.mpr ⟨serializable, encoded⟩

/-- The 32-byte array at an offset of a byte string. -/
def hashAt (bytes : List UInt8) (offset : Nat) : Hash256 :=
  BitVec.ofNat 256 (ofBigEndian ((bytes.drop offset).take 32))

/-- The byte strings that encode a share. -/
def CanonicalShareBytes (backend : Backend) (bytes : List UInt8) : Prop :=
  bytes.take 4 = kShareMagic ∧
    ((bytes[4]? = some kShareVersion1 ∧ bytes.length = 165) ∨
      (bytes[4]? = some kShareVersion2 ∧ bytes.length = 229 ∧
        hashAt bytes 133 =
          minerIdFromPayout backend
            { spendPublicKey := hashAt bytes 165
              viewPublicKey := hashAt bytes 197 }))

/-- An array is found behind what precedes it. -/
theorem hashAt_append
    {leading : List UInt8}
    {offset : Nat}
    (sized : leading.length = offset)
    (hash : Hash256)
    (rest : List UInt8) :
    hashAt (leading ++ (hashBytes hash ++ rest)) offset = hash := by
  have fits : hash.toNat < 256 ^ 32 := by
    have bound := hash.isLt
    norm_num at bound ⊢
    exact bound
  rw [hashAt, List.drop_left' sized,
    List.take_left' (by rw [hashBytes, length_bigEndian]), hashBytes,
    ofBigEndian_bigEndian_of_lt fits]
  simp

/-- Everything before the miner identity. -/
private def leadingBytes (share : Share) : List UInt8 :=
  kShareMagic ++ [share.version] ++
    hashBytes share.parentId ++
    appendU64Be share.shareHeight ++
    appendU64Be share.timestamp ++
    appendU64Be share.zanoHeight ++
    hashBytes share.miningHeaderHash ++
    appendU64Be share.nonce ++
    difficultyBytes share.shareDifficulty ++
    difficultyBytes share.networkDifficulty

private theorem length_leadingBytes
    (share : Share) :
    (leadingBytes share).length = 133 := by
  simp [leadingBytes, hashBytes, appendU64Be, difficultyBytes, kShareMagic]

/-- Where a share with payout keys keeps them and its miner identity. -/
theorem hashAt_shareFieldBytes
    (share : Share)
    (payout : PayoutPublicKeys) :
    let bytes := shareFieldBytes share ++ payoutBytes (some payout)
    hashAt bytes 133 = share.minerId ∧
      hashAt bytes 165 = payout.spendPublicKey ∧
      hashAt bytes 197 = payout.viewPublicKey := by
  have leading := length_leadingBytes share
  have hashLength : ∀ hash, (hashBytes hash).length = 32 := fun _ =>
    length_bigEndian 32 _
  have whole :
      shareFieldBytes share ++ payoutBytes (some payout) =
        leadingBytes share ++ (hashBytes share.minerId ++
          (hashBytes payout.spendPublicKey ++
            (hashBytes payout.viewPublicKey ++ []))) := by
    simp [shareFieldBytes, leadingBytes, payoutBytes]
  simp only [whole]
  refine ⟨hashAt_append leading _ _, ?_, ?_⟩
  · rw [← List.append_assoc]
    exact hashAt_append (by simp [leading, hashLength]) _ _
  · rw [← List.append_assoc, ← List.append_assoc]
    exact hashAt_append (by simp [leading, hashLength]) _ _

/-- What follows the version of a long enough string is read as fields. -/
theorem exists_shareFieldBytes
    (version : UInt8)
    {rest : List UInt8}
    (long : 160 ≤ rest.length) :
    ∃ (share : Share) (later : List UInt8),
      share.version = version ∧ share.payout = none ∧
        kShareMagic ++ version :: rest = shareFieldBytes share ++ later ∧
        later.length + 160 = rest.length := by
  obtain ⟨parentId, rest1, rfl, _⟩ := @exists_hashBytes rest (by omega)
  obtain ⟨shareHeight, rest2, rfl, _⟩ :=
    @exists_appendU64Be rest1 (by omega)
  obtain ⟨timestamp, rest3, rfl, _⟩ := @exists_appendU64Be rest2 (by omega)
  obtain ⟨zanoHeight, rest4, rfl, _⟩ := @exists_appendU64Be rest3 (by omega)
  obtain ⟨miningHeaderHash, rest5, rfl, _⟩ :=
    @exists_hashBytes rest4 (by omega)
  obtain ⟨nonce, rest6, rfl, _⟩ := @exists_appendU64Be rest5 (by omega)
  obtain ⟨shareDifficulty, rest7, rfl, _⟩ :=
    @exists_difficultyBytes rest6 (by omega)
  obtain ⟨networkDifficulty, rest8, rfl, _⟩ :=
    @exists_difficultyBytes rest7 (by omega)
  obtain ⟨minerId, rest9, rfl, _⟩ := @exists_hashBytes rest8 (by omega)
  let share : Share :=
    { version, parentId, shareHeight, timestamp, zanoHeight,
      miningHeaderHash, nonce, shareDifficulty, networkDifficulty,
      minerId, payout := none }
  refine ⟨share, rest9, rfl, rfl, ?_, by omega⟩
  simp [share, shareFieldBytes]

/-- The parser accepts exactly the canonical byte strings. -/
theorem deserializeShare_accepts_iff :
    (∃ share, deserializeShare backend bytes = .ok share) ↔
      CanonicalShareBytes backend bytes := by
  constructor
  · rintro ⟨share, parsed⟩
    have serialized := serializeShare_deserializeShare parsed
    have sized := serializeShare_length serialized
    obtain ⟨serializable, rfl⟩ := serializeShare_eq_ok.mp serialized
    refine ⟨by simp [shareFieldBytes, kShareMagic], ?_⟩
    have versioned :
        (shareFieldBytes share ++ payoutBytes share.payout)[4]? =
          some share.version := by
      simp [shareFieldBytes, kShareMagic]
    rw [versioned]
    cases serializable with
    | version1 first _ =>
        rw [first] at sized
        exact .inl ⟨by rw [first], sized⟩
    | version2 second payout matching =>
        rw [second] at sized
        rw [payout] at sized ⊢
        obtain ⟨minerId, spend, view⟩ := hashAt_shareFieldBytes share _
        rw [minerId, spend, view]
        exact .inr ⟨by rw [second], sized, matching⟩
  · rintro ⟨marked, versioned⟩
    have whole := List.take_append_drop 4 bytes
    rw [marked] at whole
    have long : 165 ≤ bytes.length := by
      rcases versioned with ⟨_, sized⟩ | ⟨_, sized, _⟩ <;> omega
    have dropped : (bytes.drop 4).length + 4 = bytes.length := by
      rw [List.length_drop]
      omega
    cases shape : bytes.drop 4 with
    | nil =>
        rw [shape] at dropped
        simp only [List.length_nil] at dropped
        omega
    | cons version rest =>
        rw [shape, List.length_cons] at dropped
        rw [shape] at whole
        have fourth : bytes[4]? = some version := by
          rw [← whole]
          simp [kShareMagic]
        rw [fourth] at versioned
        obtain ⟨share, later, sameVersion, noPayout, fields, laterLength⟩ :=
          @exists_shareFieldBytes version rest (by omega)
        rw [whole] at fields
        rcases versioned with ⟨first, sized⟩ | ⟨second, sized, matching⟩
        · obtain rfl := Option.some.inj first
          have ended : later = [] := by
            rw [← List.length_eq_zero_iff]
            omega
          refine ⟨share, deserializeShare_serializeShare
            (serializeShare_eq_ok.mpr ⟨.version1 sameVersion noPayout, ?_⟩)⟩
          rw [fields, ended, noPayout]
          rfl
        · obtain rfl := Option.some.inj second
          obtain ⟨spendPublicKey, last, rfl, _⟩ :=
            @exists_hashBytes later (by omega)
          obtain ⟨viewPublicKey, ended, rfl, _⟩ :=
            @exists_hashBytes last (by omega)
          have nothing : ended = [] := by
            rw [← List.length_eq_zero_iff]
            omega
          have encoded :
              bytes = shareFieldBytes share ++
                payoutBytes (some { spendPublicKey, viewPublicKey }) := by
            rw [fields, nothing]
            simp [payoutBytes]
          rw [encoded] at matching
          obtain ⟨minerId, spend, view⟩ :=
            hashAt_shareFieldBytes share { spendPublicKey, viewPublicKey }
          rw [minerId, spend, view] at matching
          let keys : PayoutPublicKeys := { spendPublicKey, viewPublicKey }
          exact ⟨{ share with payout := some keys },
            deserializeShare_serializeShare (serializeShare_eq_ok.mpr
              ⟨.version2 sameVersion rfl matching, encoded⟩)⟩

/--
Encoding and parsing are inverse to each other, the accepted byte strings are
known by position, and two shares with one identity exhibit a collision.
-/
theorem shareEncoding_bijective
    (backend : Backend) :
    (∀ share bytes,
      serializeShare backend share = .ok bytes →
        deserializeShare backend bytes = .ok share) ∧
    (∀ bytes share,
      deserializeShare backend bytes = .ok share →
        serializeShare backend share = .ok bytes) ∧
    (∀ bytes,
      (∃ share, deserializeShare backend bytes = .ok share) ↔
        CanonicalShareBytes backend bytes) ∧
    (∀ first second id,
      first ≠ second →
      shareId backend first = .ok id →
      shareId backend second = .ok id →
      ∃ bytes other,
        serializeShare backend first = .ok bytes ∧
        serializeShare backend second = .ok other ∧
        bytes ≠ other ∧
        backend.cnFastHash bytes = backend.cnFastHash other) := by
  refine ⟨fun _ _ => deserializeShare_serializeShare,
    fun _ _ => serializeShare_deserializeShare,
    fun _ => deserializeShare_accepts_iff, ?_⟩
  intro first second id differ keyed otherKeyed
  unfold shareId at keyed otherKeyed
  obtain ⟨bytes, serialized, hashed⟩ := except_bind_eq_ok.mp keyed
  obtain ⟨other, otherSerialized, otherHashed⟩ :=
    except_bind_eq_ok.mp otherKeyed
  refine ⟨bytes, other, serialized, otherSerialized, ?_, ?_⟩
  · rintro rfl
    have parsed := deserializeShare_serializeShare serialized
    rw [deserializeShare_serializeShare otherSerialized] at parsed
    exact differ (Except.ok.inj parsed).symm
  · rw [Except.ok.inj hashed, Except.ok.inj otherHashed]

/-- A backend whose hash is the number of hashed bytes. -/
def countingBackend : Backend where
  cnFastHash := fun bytes => BitVec.ofNat 256 bytes.length
  progpowzAvailable := true
  progpowzHash := fun _ _ _ _ => .ok { finalHash := 0, mixHash := 0 }

/-- A share of version 2 that pays the keys one and two. -/
def samplePayoutShare : Share where
  version := 2
  parentId := 0
  shareHeight := 0
  timestamp := 1000
  zanoHeight := 7
  miningHeaderHash := 3
  nonce := 9
  shareDifficulty := 1
  networkDifficulty := 100
  minerId := 69
  payout := some { spendPublicKey := 1, viewPublicKey := 2 }

/-- The sample share round-trips, and its bytes are canonical. -/
theorem samplePayoutShare_roundTrips :
    ∃ bytes,
      serializeShare countingBackend samplePayoutShare = .ok bytes ∧
        deserializeShare countingBackend bytes = .ok samplePayoutShare ∧
        CanonicalShareBytes countingBackend bytes := by
  have serialized :
      serializeShare countingBackend samplePayoutShare =
        .ok (shareFieldBytes samplePayoutShare ++
          payoutBytes samplePayoutShare.payout) :=
    serializeShare_eq_ok.mpr
      ⟨.version2 rfl rfl (by decide +kernel), rfl⟩
  obtain ⟨parses, _, accepts, _⟩ := shareEncoding_bijective countingBackend
  have parsed := parses _ _ serialized
  exact ⟨_, serialized, parsed, (accepts _).mp ⟨_, parsed⟩⟩

end ZanoP2pool
