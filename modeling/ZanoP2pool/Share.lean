import ZanoP2pool.Foundation.Cursor

namespace ZanoP2pool

open Foundation

/-!
# Sidechain shares

The share record of the sidechain, its canonical byte encoding and its
identity.  Fixed-size byte arrays of the source (`Hash256`, `Difficulty128`)
are bit vectors holding the big-endian value of the array, so the
lexicographic comparison of two arrays is the comparison of the two vectors.

`cn_fast_hash` and the ProgPoWZ backend are parameters, collected in
`Backend`: nothing below depends on which functions they are.
-/

/-- A thrown exception: its standard class and its message. -/
inductive Exception where
  | invalidArgument (what : String)
  | logicError (what : String)
  | runtimeError (what : String)
  | outOfRange (what : String)
  | overflowError (what : String)
  deriving Repr, DecidableEq

/-- A 32-byte array, read as a big-endian number. -/
abbrev Hash256 := BitVec 256

instance : Std.TransOrd Hash256 :=
  inferInstanceAs (Std.TransOrd (BitVec 256))

instance : LawfulBEq Hash256 :=
  inferInstanceAs (LawfulBEq (BitVec 256))

abbrev ShareId := Hash256

abbrev MinerId := Hash256

/-- A 16-byte array, read as a big-endian number. -/
abbrev Difficulty128 := BitVec 128

/-- Cache residency used by the ProgPoWZ backend. -/
inductive ProgPowZContextMode where
  | light
  | full
  deriving Repr, DecidableEq

/-- The two hashes returned by one ProgPoWZ evaluation. -/
structure ProgPowZResult where
  finalHash : Hash256
  mixHash : Hash256
  deriving Repr, DecidableEq

/-- The hash function and the proof-of-work backend the program runs on. -/
structure Backend where
  cnFastHash : List UInt8 → Hash256
  progpowzAvailable : Bool
  progpowzHash :
    UInt64 → Hash256 → UInt64 → ProgPowZContextMode →
      Except Exception ProgPowZResult

/-- Public spend and view keys that identify one payout destination. -/
structure PayoutPublicKeys where
  spendPublicKey : Hash256
  viewPublicKey : Hash256
  deriving Repr, DecidableEq

def kShareVersion1 : UInt8 := 1

def kShareVersion2 : UInt8 := 2

def kShareV1SerializedSize : Nat := 165

def kShareV2SerializedSize : Nat := kShareV1SerializedSize + 64

/-- One share of the local sidechain. -/
structure Share where
  version : UInt8
  parentId : ShareId
  shareHeight : UInt64
  timestamp : UInt64
  zanoHeight : UInt64
  miningHeaderHash : Hash256
  nonce : UInt64
  shareDifficulty : Difficulty128
  networkDifficulty : Difficulty128
  minerId : MinerId
  payout : Option PayoutPublicKeys
  deriving Repr, DecidableEq

/-- The bytes `ZP2S` that open every share encoding. -/
def kShareMagic : List UInt8 := [0x5a, 0x50, 0x32, 0x53]

/-- The bytes `ZP2P\0` that separate payout hashing from other uses. -/
def kPayoutMinerDomain : List UInt8 := [0x5a, 0x50, 0x32, 0x50, 0x00]

/-- The bytes of a 32-byte array. -/
def hashBytes (hash : Hash256) : List UInt8 :=
  bigEndian 32 hash.toNat

/-- The bytes of a 16-byte array. -/
def difficultyBytes (difficulty : Difficulty128) : List UInt8 :=
  bigEndian 16 difficulty.toNat

/-- Big-endian bytes of a 64-bit field. -/
def appendU64Be (value : UInt64) : List UInt8 :=
  bigEndian 8 value.toNat

def difficulty128IsZero (difficulty : Difficulty128) : Bool :=
  difficulty == 0

theorem difficulty128IsZero_eq_false
    {difficulty : Difficulty128} :
    difficulty128IsZero difficulty = false ↔ difficulty ≠ 0 := by
  simp [difficulty128IsZero]

def isZeroShareId (id : ShareId) : Bool :=
  id == 0

theorem isZeroShareId_iff
    {id : ShareId} :
    isZeroShareId id = true ↔ id = 0 := by
  simp [isZeroShareId]

theorem isZeroShareId_eq_false
    {id : ShareId} :
    isZeroShareId id = false ↔ id ≠ 0 := by
  rw [← Bool.not_eq_true, isZeroShareId_iff]

/-- Decimal digits of a difficulty, most significant first. -/
def difficulty128ToDecimal (difficulty : Difficulty128) : List Char :=
  Nat.toDigits 10 difficulty.toNat

/-- The domain-separated identity of a payout destination. -/
def minerIdFromPayout
    (backend : Backend)
    (payout : PayoutPublicKeys) :
    MinerId :=
  backend.cnFastHash
    (kPayoutMinerDomain ++ hashBytes payout.spendPublicKey ++
      hashBytes payout.viewPublicKey)

/-- The encoding of the fields that both share versions carry. -/
def shareFieldBytes (share : Share) : List UInt8 :=
  kShareMagic ++ [share.version] ++
    hashBytes share.parentId ++
    appendU64Be share.shareHeight ++
    appendU64Be share.timestamp ++
    appendU64Be share.zanoHeight ++
    hashBytes share.miningHeaderHash ++
    appendU64Be share.nonce ++
    difficultyBytes share.shareDifficulty ++
    difficultyBytes share.networkDifficulty ++
    hashBytes share.minerId

/-- Canonical encoding of a share, refusing shares outside both versions. -/
def serializeShare
    (backend : Backend)
    (share : Share) :
    Except Exception (List UInt8) := do
  if share.version ≠ kShareVersion1 ∧ share.version ≠ kShareVersion2 then
    throw (.invalidArgument "unsupported share version")
  if share.version = kShareVersion1 ∧ share.payout.isSome then
    throw (.invalidArgument "share v1 cannot carry payout public keys")
  if share.version = kShareVersion2 then
    match share.payout with
    | none =>
        throw (.invalidArgument "share v2 requires payout public keys")
    | some payout =>
        if share.minerId ≠ minerIdFromPayout backend payout then
          throw (.invalidArgument
            "share v2 miner id does not match payout public keys")
  let expectedSize :=
    if share.version = kShareVersion1 then kShareV1SerializedSize
    else kShareV2SerializedSize
  let payoutBytes :=
    match share.payout with
    | some payout =>
        if share.version = kShareVersion2 then
          hashBytes payout.spendPublicKey ++ hashBytes payout.viewPublicKey
        else []
    | none => []
  let bytes := shareFieldBytes share ++ payoutBytes
  if bytes.length ≠ expectedSize then
    throw (.logicError "share serialized-size invariant failed")
  return bytes

/-- Read one 32-byte array of a share encoding. -/
def readHash : Cursor Exception Hash256 := do
  let value ← takeBigEndian 32
    (.runtimeError "truncated share byte-array field")
  return BitVec.ofNat 256 value

/-- Read one 16-byte array of a share encoding. -/
def readDifficulty : Cursor Exception Difficulty128 := do
  let value ← takeBigEndian 16
    (.runtimeError "truncated share byte-array field")
  return BitVec.ofNat 128 value

/-- Read one 64-bit field of a share encoding. -/
def readU64Be : Cursor Exception UInt64 := do
  let value ← takeBigEndian 8
    (.runtimeError "truncated share uint64 field")
  return UInt64.ofNat value

/-- Read the fields that follow the version byte of a share encoding. -/
def readShareFields
    (backend : Backend)
    (version : UInt8) :
    Cursor Exception Share := do
  let parentId ← readHash
  let shareHeight ← readU64Be
  let timestamp ← readU64Be
  let zanoHeight ← readU64Be
  let miningHeaderHash ← readHash
  let nonce ← readU64Be
  let shareDifficulty ← readDifficulty
  let networkDifficulty ← readDifficulty
  let minerId ← readHash
  let share : Share :=
    { version, parentId, shareHeight, timestamp, zanoHeight,
      miningHeaderHash, nonce, shareDifficulty, networkDifficulty,
      minerId, payout := none }
  if version = kShareVersion2 then
    let spendPublicKey ← readHash
    let viewPublicKey ← readHash
    let payout : PayoutPublicKeys := { spendPublicKey, viewPublicKey }
    if minerId ≠ minerIdFromPayout backend payout then
      throw (.runtimeError
        "share v2 miner id does not match payout public keys")
    return { share with payout := some payout }
  else
    return share

/-- Parse one canonical share encoding. -/
def deserializeShare
    (backend : Backend)
    (bytes : List UInt8) :
    Except Exception Share := do
  if bytes.length < 5 then
    throw (.runtimeError "truncated share encoding")
  if bytes.take 4 ≠ kShareMagic then
    throw (.runtimeError "invalid share domain marker")
  match bytes.drop 4 with
  | [] => throw (.runtimeError "truncated share encoding")
  | version :: rest =>
      if version ≠ kShareVersion1 ∧ version ≠ kShareVersion2 then
        throw (.runtimeError "unsupported share version")
      let expectedSize :=
        if version = kShareVersion1 then kShareV1SerializedSize
        else kShareV2SerializedSize
      if bytes.length ≠ expectedSize then
        throw (.runtimeError "share has invalid serialized size")
      let (share, remaining) ← (readShareFields backend version).run rest
      if remaining ≠ [] then
        throw (.logicError
          "share parser did not consume canonical encoding")
      return share

/-- The identity of a share: the hash of its canonical encoding. -/
def shareId
    (backend : Backend)
    (share : Share) :
    Except Exception ShareId := do
  let bytes ← serializeShare backend share
  return backend.cnFastHash bytes

end ZanoP2pool
