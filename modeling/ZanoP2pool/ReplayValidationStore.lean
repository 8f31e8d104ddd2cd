import Mathlib.Data.List.Sort
import ZanoP2pool.Foundation.Words
import ZanoP2pool.ShareChain

namespace ZanoP2pool

open Foundation

/-!
# The replay-validation store

The file holds the validation results of shares under a checkpoint of the Zano
chain: a prefix with the number of records, the records in the order of their
share ids, and a digest of all preceding bytes.
-/

/-- The canonical Zano block a snapshot is bound to. -/
structure ReplayValidationCheckpoint where
  zanoHeight : UInt64
  blockHash : Hash256
  deriving Repr, DecidableEq

structure ReplayValidationSnapshot where
  checkpoint : ReplayValidationCheckpoint
  records : List ReplayValidationRecord
  deriving Repr, DecidableEq

namespace ReplayValidationStore

/-- The bytes `ZP2VAL01`. -/
def kMagic : List UInt8 :=
  [0x5a, 0x50, 0x32, 0x56, 0x41, 0x4c, 0x30, 0x31]

def kPrefixSize : UInt64 := 8 + 32 + 8 + 32 + 8

def kRecordSize : UInt64 := 32 + 32 + 32 + 3

def kDigestSize : UInt64 := 32

def kMaxRecords : UInt64 := 1000000

/-- Only complete and consistent validation results are stored. -/
def validateRecord
    (record : ReplayValidationRecord) :
    Except Exception Unit :=
  if isZeroShareId record.shareId then
    throw (.runtimeError "replay-validation record has zero ShareId")
  else if !record.validation.meetsShareDifficulty then
    throw (.runtimeError
      "replay-validation record does not meet share difficulty")
  else
    match record.validation.classification with
    | .share =>
        if record.validation.meetsNetworkDifficulty then
          throw (.runtimeError ("share-class replay-validation record " ++
            "unexpectedly meets network difficulty"))
        else
          return ()
    | .block =>
        if !record.validation.meetsNetworkDifficulty then
          throw (.runtimeError ("block-class replay-validation record " ++
            "does not meet network difficulty"))
        else
          return ()
    | .invalid =>
        throw (.runtimeError
          "invalid candidate cannot be persisted as validated")

def classificationByte : CandidateClassification → Except Exception UInt8
  | .share => return 1
  | .block => return 2
  | .invalid =>
      throw (.runtimeError "invalid replay-validation classification")

def classificationFromByte
    (value : UInt8) :
    Except Exception CandidateClassification :=
  if value = 1 then
    return .share
  else if value = 2 then
    return .block
  else
    throw (.runtimeError "invalid replay-validation classification byte")

def boolFromByte (value : UInt8) (context : String) : Except Exception Bool :=
  if value > 1 then
    throw (.runtimeError ("invalid replay-validation boolean: " ++ context))
  else
    return value ≠ 0

/-- A truth value as a byte. -/
def boolByte (value : Bool) : UInt8 :=
  if value then 1 else 0

/-- Records are sorted by their share ids. -/
def recordLe (left right : ReplayValidationRecord) : Prop :=
  left.shareId ≤ right.shareId

instance : DecidableRel recordLe := fun left right =>
  inferInstanceAs (Decidable (left.shareId ≤ right.shareId))

/-- Check sorted records one by one, each against the one before it. -/
def checkSortedRecords :
    Option ShareId → List ReplayValidationRecord → Except Exception Unit
  | _, [] => return ()
  | previous, record :: rest => do
      validateRecord record
      if previous = some record.shareId then
        throw (.runtimeError
          "replay-validation snapshot contains duplicate ShareId")
      else
        checkSortedRecords (some record.shareId) rest

/-- The most records whose sizes still add up within 64 bits. -/
def maxSizedRecords : UInt64 :=
  (UInt64.ofNat (2 ^ 64 - 1) - kPrefixSize - kDigestSize) / kRecordSize

/-- The size of a file with the given number of records. -/
def expectedSize (recordCount : UInt64) : UInt64 :=
  kPrefixSize + recordCount * kRecordSize + kDigestSize

/-- The bytes of one record. -/
def recordBytes
    (record : ReplayValidationRecord) :
    Except Exception (List UInt8) := do
  let classification ← classificationByte record.validation.classification
  return hashBytes record.shareId ++
    hashBytes record.validation.pow.finalHash ++
    hashBytes record.validation.pow.mixHash ++
    [boolByte record.validation.meetsShareDifficulty,
      boolByte record.validation.meetsNetworkDifficulty, classification]

/-- The bytes before the records. -/
def prefixBytes
    (sidechainId : SidechainId)
    (checkpoint : ReplayValidationCheckpoint)
    (recordCount : UInt64) :
    List UInt8 :=
  kMagic ++ hashBytes sidechainId ++ appendU64Be checkpoint.zanoHeight ++
    hashBytes checkpoint.blockHash ++ appendU64Be recordCount

def serializeSnapshot
    (backend : Backend)
    (sidechainId : SidechainId)
    (snapshot : ReplayValidationSnapshot) :
    Except Exception (List UInt8) :=
  if snapshot.checkpoint.blockHash = 0 then
    throw (.runtimeError
      "replay-validation checkpoint hash must be nonzero")
  else if snapshot.records.length > kMaxRecords.toNat then
    throw (.runtimeError "replay-validation record count exceeds limit")
  else do
    let records := snapshot.records.insertionSort recordLe
    checkSortedRecords none records
    if records.length > maxSizedRecords.toNat then
      throw (.runtimeError "replay-validation snapshot size overflow")
    else
      let encoded ← records.mapM recordBytes
      let bytes :=
        prefixBytes sidechainId snapshot.checkpoint
          (UInt64.ofNat records.length) ++ encoded.flatten
      return bytes ++ hashBytes (backend.cnFastHash bytes)

/-- A field of the file that ends too early. -/
def truncatedField (context : String) : Exception :=
  .runtimeError ("truncated replay-validation " ++ context)

/-- Read and check one record; the digest stands behind the last one. -/
def readRecord : Cursor Exception ReplayValidationRecord := do
  let shareId ← takeBitVec256 (truncatedField "ShareId")
  let finalHash ← takeBitVec256 (truncatedField "PoW final hash")
  let mixHash ← takeBitVec256 (truncatedField "PoW mix hash")
  let remaining ← get
  if remaining.length < 3 + kDigestSize.toNat then
    throw (.runtimeError "truncated replay-validation record flags")
  else
    let shareByte ← takeByte (truncatedField "flags")
    let meetsShareDifficulty ←
      StateT.lift (boolFromByte shareByte "meets-share-difficulty")
    let networkByte ← takeByte (truncatedField "flags")
    let meetsNetworkDifficulty ←
      StateT.lift (boolFromByte networkByte "meets-network-difficulty")
    let classByte ← takeByte (truncatedField "flags")
    let classification ← StateT.lift (classificationFromByte classByte)
    let record : ReplayValidationRecord := {
      shareId
      validation := {
        pow := { finalHash, mixHash }, meetsShareDifficulty
        meetsNetworkDifficulty, classification } }
    StateT.lift (validateRecord record)
    return record

/-- Read a number of records, each above the one before it. -/
def readRecords :
    Nat → Option ShareId → Cursor Exception (List ReplayValidationRecord)
  | 0, _ => return []
  | count + 1, previous => do
      let record ← readRecord
      if previous.any (fun last => last ≥ record.shareId) then
        throw (.runtimeError
          "replay-validation records are not strictly ordered")
      else
        let later ← readRecords count (some record.shareId)
        return record :: later

/-- Read the prefix and the records of a file of the given size. -/
def readSnapshot
    (expectedSidechainId : SidechainId)
    (size : Nat) :
    Cursor Exception ReplayValidationSnapshot := do
  let magic ← takeBytes 8 (truncatedField "magic")
  if magic ≠ kMagic then
    throw (.runtimeError "invalid replay-validation store magic")
  else
    let sidechainId ← takeBitVec256 (truncatedField "sidechain id")
    if sidechainId ≠ expectedSidechainId then
      throw (.runtimeError "replay-validation sidechain id mismatch")
    else
      let zanoHeight ← takeUInt64 (truncatedField "u64")
      let blockHash ← takeBitVec256 (truncatedField "checkpoint hash")
      if blockHash = 0 then
        throw (.runtimeError "replay-validation checkpoint hash is zero")
      else
        let recordCount ← takeUInt64 (truncatedField "u64")
        if recordCount > kMaxRecords ∨
            recordCount > UInt64.ofNat (2 ^ 64 - 1) then
          throw (.runtimeError "replay-validation record count exceeds limit")
        else if recordCount > maxSizedRecords then
          throw (.runtimeError "replay-validation record size overflow")
        else if size ≠ (expectedSize recordCount).toNat then
          throw (.runtimeError "replay-validation store size mismatch")
        else
          let records ← readRecords recordCount.toNat none
          let remaining ← get
          if remaining.length ≠ kDigestSize.toNat then
            throw (.runtimeError ("replay-validation parser did not consume " ++
              "the complete record region"))
          else
            return { checkpoint := { zanoHeight, blockHash }, records }

def parseSnapshot
    (backend : Backend)
    (expectedSidechainId : SidechainId)
    (bytes : List UInt8) :
    Except Exception ReplayValidationSnapshot :=
  if bytes.length < (kPrefixSize + kDigestSize).toNat then
    throw (.runtimeError "replay-validation store is truncated")
  else
    let digestOffset := bytes.length - kDigestSize.toNat
    let actualDigest := backend.cnFastHash (bytes.take digestOffset)
    let storedDigest :=
      BitVec.ofNat 256 (ofBigEndian (bytes.drop digestOffset))
    if actualDigest ≠ storedDigest then
      throw (.runtimeError "replay-validation store digest mismatch")
    else do
      let read ← (readSnapshot expectedSidechainId bytes.length).run bytes
      return read.1

end ReplayValidationStore

/-- The cache of one sidechain: its file, when there is one. -/
structure ReplayValidationStore where
  expectedSidechainId : SidechainId
  file : Option (List UInt8)
  named : expectedSidechainId ≠ 0

namespace ReplayValidationStore

/--
Replace the file by rename.  A fault of the file system comes before the rename
and leaves the file as it was.
-/
def save
    (backend : Backend)
    (fault : Option Exception)
    (snapshot : ReplayValidationSnapshot) :
    EStateM Exception ReplayValidationStore Unit := do
  let store ← get
  let bytes ← orThrow
    (serializeSnapshot backend store.expectedSidechainId snapshot)
  match fault with
  | some thrown => throw thrown
  | none => set { store with file := some bytes }

/-- The snapshot in the file; none when there is no file. -/
def load
    (backend : Backend)
    (fault : Option Exception)
    (store : ReplayValidationStore) :
    Except Exception (Option ReplayValidationSnapshot) :=
  match store.file with
  | none => return none
  | some bytes =>
      match fault with
      | some thrown => throw thrown
      | none => do
          let snapshot ← parseSnapshot backend store.expectedSidechainId bytes
          return some snapshot

end ReplayValidationStore

end ZanoP2pool
