import ZanoP2pool.ShareChain
import ZanoP2pool.ShareCodec

namespace ZanoP2pool

open Foundation

/-!
# The append-only share store

The durable log of one sidechain: a header with the sidechain identity, then
records of a length, a canonical share encoding and the share identity.  The
file is a byte list, absent until the first write; writes complete, and the
renames that install a rewritten file are atomic.
-/

/-- The bytes `ZP2STOR1` that open every share store. -/
def kShareStoreMagic : List UInt8 :=
  [0x5a, 0x50, 0x32, 0x53, 0x54, 0x4f, 0x52, 0x31]

def kShareStoreHeaderSize : Nat := 40

structure ShareStoreLoadResult where
  recordsLoaded : Nat := 0
  connectedShares : Nat := 0
  orphanShares : Nat := 0
  truncatedTailRepaired : Bool := false
  bestTipId : Option ShareId := none
  deriving Repr, DecidableEq

/-- A store of one sidechain and the content of its file. -/
structure ShareStore where
  path : String
  expectedSidechainId : SidechainId
  file : Option (List UInt8)
  deriving Repr, DecidableEq

/-- Operations on a store: they may throw and keep what they wrote. -/
abbrev StoreM := EStateM Exception ShareStore

namespace ShareStore

/-- Open a store at a path, refusing an empty path and a zero identity. -/
def create
    (path : String)
    (expectedSidechainId : SidechainId)
    (file : Option (List UInt8)) :
    Except Exception ShareStore :=
  if path.isEmpty then
    .error (.invalidArgument "share store path must not be empty")
  else if expectedSidechainId = 0 then
    .error (.invalidArgument "share store sidechain id must be nonzero")
  else
    .ok { path, expectedSidechainId, file }

/-- The header of a store of the given sidechain. -/
def headerBytes (sidechainId : SidechainId) : List UInt8 :=
  kShareStoreMagic ++ hashBytes sidechainId

/-- Check the header of a file and return the bytes that follow it. -/
def verifyHeader
    (expectedSidechainId : SidechainId)
    (bytes : List UInt8) :
    Except Exception (List UInt8) :=
  let afterMagic := bytes.drop kShareStoreMagic.length
  if bytes.take kShareStoreMagic.length ≠ kShareStoreMagic then
    .error (.runtimeError "invalid share store magic/version")
  else if afterMagic.length < 32 then
    .error (.runtimeError "share store sidechain id is truncated")
  else if BitVec.ofNat 256 (ofBigEndian (afterMagic.take 32)) ≠
      expectedSidechainId then
    .error (.runtimeError "share store belongs to a different sidechain")
  else
    .ok (afterMagic.drop 32)

/-- The canonical payload of a share, checked to have a known size. -/
def recordPayload
    (backend : Backend)
    (share : Share) :
    Except Exception (List UInt8) := do
  let payload ← serializeShare backend share
  if payload.length ≠ kShareV1SerializedSize ∧
      payload.length ≠ kShareV2SerializedSize then
    .error (.logicError "unexpected serialized share size")
  else
    .ok payload

/-- One record: payload length, payload and share identity. -/
def recordBytes (payload : List UInt8) (id : ShareId) : List UInt8 :=
  bigEndian 4 payload.length ++ payload ++ hashBytes id

/-- Create the file with its header, or check the header it has. -/
def ensureHeader : StoreM (List UInt8) := do
  let store ← get
  match store.file with
  | none =>
      set { store with file := some (headerBytes store.expectedSidechainId) }
      return headerBytes store.expectedSidechainId
  | some bytes =>
      if bytes.length < kShareStoreHeaderSize then
        throw (.runtimeError "existing share store header is truncated")
      let _ ← orThrow (verifyHeader store.expectedSidechainId bytes)
      return bytes

/-- Append the record of one share. -/
def append (backend : Backend) (share : Share) : StoreM Unit := do
  let payload ← orThrow (recordPayload backend share)
  let id ← orThrow (shareId backend share)
  let bytes ← ensureHeader
  modify fun store =>
    { store with file := some (bytes ++ recordBytes payload id) }

/-- The records of shares in order, refusing a repeated identity. -/
def rewriteRecords
    (backend : Backend) :
    List ShareId → List Share → Except Exception (List UInt8)
  | _, [] => .ok []
  | seen, share :: rest => do
      let payload ← recordPayload backend share
      let id ← shareId backend share
      if id ∈ seen then
        .error (.invalidArgument
          "share store rewrite contains duplicate record")
      else do
        let later ← rewriteRecords backend (id :: seen) rest
        return recordBytes payload id ++ later

/-- Replace the log by the records of the given shares. -/
def rewrite (backend : Backend) (shares : List Share) : StoreM Unit := do
  let store ← get
  match store.file with
  | none => pure ()
  | some bytes =>
      if bytes.length < kShareStoreHeaderSize then
        throw (.runtimeError "existing share store header is truncated")
      let _ ← orThrow (verifyHeader store.expectedSidechainId bytes)
  let records ← orThrow (rewriteRecords backend [] shares)
  set { store with
    file := some (headerBytes store.expectedSidechainId ++ records) }

/-- What a reader of the log finds at the front of the remaining bytes. -/
inductive NextRecord where
  | finished
  | truncated
  | complete
      (payload : List UInt8)
      (storedId : ShareId)
      (rest : List UInt8)
  deriving Repr, DecidableEq

/-- Read the next record of the log. -/
def nextRecord (bytes : List UInt8) : Except Exception NextRecord :=
  let length := ofBigEndian (bytes.take 4)
  let afterLength := bytes.drop 4
  let afterPayload := afterLength.drop length
  if bytes = [] then
    .ok .finished
  else if bytes.length < 4 then
    .ok .truncated
  else if length ≠ kShareV1SerializedSize ∧
      length ≠ kShareV2SerializedSize then
    .error (.runtimeError "share store record has invalid length")
  else if afterLength.length < length then
    .ok .truncated
  else if afterPayload.length < 32 then
    .ok .truncated
  else
    .ok (.complete (afterLength.take length)
      (BitVec.ofNat 256 (ofBigEndian (afterPayload.take 32)))
      (afterPayload.drop 32))

/-- Decode a payload and compare the stored identity with its own. -/
def decodeRecord
    (backend : Backend)
    (payload : List UInt8)
    (storedId : ShareId) :
    Except Exception Share := do
  let share ← deserializeShare backend payload
  let id ← shareId backend share
  if id ≠ storedId then
    .error (.runtimeError "share store record hash mismatch")
  else
    .ok share

/-- Replay one share, refusing anything but a connected share or an orphan. -/
def replayShare (backend : Backend) (share : Share) : ChainM Unit := do
  let added ← ShareChain.addShareUnchecked backend share
  if added.disposition = .duplicate then
    throw (.runtimeError "share store contains duplicate record")
  else if added.disposition = .rejected then
    throw (.runtimeError
      ("share store replay rejected share: " ++
        shareRejectReasonName added.rejectReason))
  else
    return ()

/-- How far a load got: records, bytes of complete records, a short tail. -/
structure LoadProgress where
  recordsLoaded : Nat := 0
  goodBytes : Nat := 0
  truncatedTail : Bool := false
  deriving Repr, DecidableEq

/--
Replay the records of a log into a chain.  Every record is longer than one
byte, so a budget above the number of bytes is never exhausted.
-/
def replayRecords
    (backend : Backend)
    (repairTruncatedTail : Bool) :
    Nat → List UInt8 → ChainM LoadProgress
  | 0, _ => return {}
  | budget + 1, bytes => do
      match ← orThrow (nextRecord bytes) with
      | .finished => return {}
      | .truncated =>
          if !repairTruncatedTail then
            throw (.runtimeError "share store final record is truncated")
          else
            return { truncatedTail := true }
      | .complete payload storedId rest =>
          let share ← orThrow (decodeRecord backend payload storedId)
          replayShare backend share
          let later ← replayRecords backend repairTruncatedTail budget rest
          return { later with
            recordsLoaded := later.recordsLoaded + 1
            goodBytes := later.goodBytes + (4 + payload.length + 32) }

/--
Replay the log into a chain.  The second result is the store afterwards: a
short final record is cut off when repair is requested.
-/
def loadInto
    (backend : Backend)
    (store : ShareStore)
    (repairTruncatedTail : Bool) :
    ChainM (ShareStoreLoadResult × ShareStore) := do
  match store.file with
  | none => return ({}, store)
  | some bytes =>
      if bytes.length < kShareStoreHeaderSize then
        throw (.runtimeError "share store header is truncated")
      let records ← orThrow (verifyHeader store.expectedSidechainId bytes)
      let progress ← replayRecords backend repairTruncatedTail
        (records.length + 1) records
      let chain ← get
      let repaired :=
        if progress.truncatedTail then
          { store with
            file := some
              (bytes.take (kShareStoreHeaderSize + progress.goodBytes)) }
        else store
      return (
        { recordsLoaded := progress.recordsLoaded
          connectedShares := chain.connected.size
          orphanShares := chain.orphans.size
          truncatedTailRepaired := progress.truncatedTail
          bestTipId := chain.bestTip.map ConnectedShare.id },
        repaired)

/-- All shares of a log in order, refusing short tails and duplicates. -/
def readAllRecords
    (backend : Backend) :
    Nat → List ShareId → List UInt8 →
      Except Exception (List (ShareId × Share))
  | 0, _, _ => .ok []
  | budget + 1, seen, bytes => do
      match ← nextRecord bytes with
      | .finished => .ok []
      | .truncated =>
          .error (.runtimeError "share store final record is truncated")
      | .complete payload storedId rest => do
          let share ← decodeRecord backend payload storedId
          if storedId ∈ seen then
            .error (.runtimeError "share store contains duplicate record")
          else do
            let later ←
              readAllRecords backend budget (storedId :: seen) rest
            return (storedId, share) :: later

/-- Remove the records of the named shares; the result counts them. -/
def eraseRecords
    (backend : Backend)
    (ids : List ShareId) :
    StoreM Nat := do
  if ids.isEmpty then
    return 0
  let store ← get
  match store.file with
  | none => return 0
  | some bytes =>
      if bytes.length < kShareStoreHeaderSize then
        throw (.runtimeError "share store header is truncated")
      let records ← orThrow (verifyHeader store.expectedSidechainId bytes)
      let shares ← orThrow
        (readAllRecords backend (records.length + 1) [] records)
      let removed := shares.filter fun item => item.1 ∈ ids
      let retained := shares.filter fun item => item.1 ∉ ids
      if removed.length ≠ 0 then
        rewrite backend (retained.map Prod.snd)
      return removed.length

end ShareStore

end ZanoP2pool
