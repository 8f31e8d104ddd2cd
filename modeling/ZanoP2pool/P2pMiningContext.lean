import ZanoP2pool.MiningHeader
import ZanoP2pool.P2pMessages
import ZanoP2pool.P2pMinerTxBinding

namespace ZanoP2pool

open Foundation

/-!
# Mining contexts from peers

A peer proposes the exact template it mines on, together with the text that
opens the amounts of its miner transaction.  A proposal has one encoding, whose
hash is its identity, and a structure that ties the template to the metadata.
Neither makes the proposal trusted.
-/

def kP2pMiningContextVersion1 : UInt8 := 1

abbrev P2pMiningContextId := Hash256

/-- The fields a node compares with its own daemon. -/
structure P2pMiningAnchor where
  zanoHeight : UInt64 := 0
  prevHash : Hash256 := 0
  networkDifficulty : Difficulty128 := 0
  seed : Hash256 := 0
  blockRewardWithoutFee : UInt64 := 0
  deriving Repr, DecidableEq

/-- An untrusted proposal of one exact mining context. -/
structure P2pMiningContextProposal where
  version : UInt8 := kP2pMiningContextVersion1
  zanoHeight : UInt64 := 0
  prevHash : Hash256 := 0
  networkDifficulty : Difficulty128 := 0
  seed : Hash256 := 0
  blockRewardWithoutFee : UInt64 := 0
  blockReward : UInt64 := 0
  txsFee : UInt64 := 0
  blockTemplateBlob : List UInt8 := []
  minerTxTgcJson : List UInt8 := []
  deriving Repr, DecidableEq

/-- Whether a byte is a hexadecimal digit. -/
def isHexDigit (byte : UInt8) : Bool :=
  (0x30 ≤ byte ∧ byte ≤ 0x39) ∨ (0x61 ≤ byte ∧ byte ≤ 0x66) ∨
    (0x41 ≤ byte ∧ byte ≤ 0x46)

/-- The text must be an object whose transaction key is hexadecimal. -/
def requireValidTgcJson
    (json : JsonBackend)
    (jsonText : List UInt8) :
    Except Exception Unit :=
  if jsonText.isEmpty then
    throw (.runtimeError "P2P mining context has empty miner_tx_tgc")
  else
    match json jsonText (BitVec.ofNat 32 jsonText.length) with
    | none => throw (.runtimeError "invalid P2P miner_tx_tgc JSON object")
    | some root =>
        match root "tx_key" with
        | none =>
            throw (.runtimeError "P2P miner_tx_tgc has no string tx_key")
        | some key =>
            if key.isEmpty ∨ key.length % 2 ≠ 0 ∨ !key.all isHexDigit then
              throw (.runtimeError
                "P2P miner_tx_tgc tx_key is not non-empty hex")
            else
              return ()

/-- The checks a proposal passes before it is written and after it is read. -/
def requireProposalSerializable
    (json : JsonBackend)
    (proposal : P2pMiningContextProposal) :
    Except Exception Unit :=
  if proposal.version ≠ kP2pMiningContextVersion1 then
    throw (.runtimeError "unsupported P2P mining-context version")
  else if difficulty128IsZero proposal.networkDifficulty then
    throw (.runtimeError "P2P mining context has zero network difficulty")
  else if proposal.blockTemplateBlob.isEmpty then
    throw (.runtimeError "P2P mining context has empty block template")
  else do
    requireValidTgcJson json proposal.minerTxTgcJson
    if proposal.blockTemplateBlob.length >
        kP2pMaxPayloadSize - kP2pMiningContextFixedPayloadSize then
      throw (.runtimeError "P2P mining-context block blob is too large")
    else
      let remaining :=
        kP2pMaxPayloadSize - kP2pMiningContextFixedPayloadSize -
          proposal.blockTemplateBlob.length
      if proposal.minerTxTgcJson.length > remaining then
        throw (.runtimeError "P2P mining-context payload exceeds maximum size")
      else if proposal.blockTemplateBlob.length > 2 ^ 32 - 1 ∨
          proposal.minerTxTgcJson.length > 2 ^ 32 - 1 then
        throw (.runtimeError "P2P mining-context component exceeds uint32")
      else
        return ()

/-- The fixed part of an encoding. -/
def miningContextFixedBytes
    (proposal : P2pMiningContextProposal)
    (blockBlobSize tgcSize : UInt32) :
    List UInt8 :=
  [proposal.version] ++ appendU64Be proposal.zanoHeight ++
    hashBytes proposal.prevHash ++
    difficultyBytes proposal.networkDifficulty ++ hashBytes proposal.seed ++
    appendU64Be proposal.blockRewardWithoutFee ++
    appendU64Be proposal.blockReward ++ appendU64Be proposal.txsFee ++
    appendU32Be blockBlobSize ++ appendU32Be tgcSize

/-- The fixed part, the template and the text. -/
def miningContextBytes (proposal : P2pMiningContextProposal) : List UInt8 :=
  miningContextFixedBytes proposal
      (UInt32.ofNat proposal.blockTemplateBlob.length)
      (UInt32.ofNat proposal.minerTxTgcJson.length) ++
    proposal.blockTemplateBlob ++ proposal.minerTxTgcJson

def serializeP2pMiningContextPayload
    (json : JsonBackend)
    (proposal : P2pMiningContextProposal) :
    Except Exception (List UInt8) := do
  requireProposalSerializable json proposal
  let out := miningContextBytes proposal
  if out.length > kP2pMaxPayloadSize then
    throw (.runtimeError "internal P2P mining-context size mismatch")
  else
    return out

/-- Cut the rest of a payload by its two announced lengths. -/
def takeMiningContextComponents
    (blockBlobSize tgcSize : UInt32) :
    Cursor Exception (List UInt8 × List UInt8) := do
  let remaining ← get
  -- the sum is formed in 64 bits
  let expectedVariableSize := blockBlobSize.toUInt64 + tgcSize.toUInt64
  if expectedVariableSize.toNat ≠ remaining.length then
    throw (.runtimeError "P2P mining-context component lengths mismatch")
  else
    let blockTemplateBlob ← takeBytes blockBlobSize.toNat readPastEnd
    let minerTxTgcJson ← takeBytes tgcSize.toNat readPastEnd
    return (blockTemplateBlob, minerTxTgcJson)

/-- Read a proposal from a payload of at least the fixed size. -/
def readP2pMiningContext : Cursor Exception P2pMiningContextProposal := do
  let version ← takeByte readPastEnd
  if version ≠ kP2pMiningContextVersion1 then
    throw (.runtimeError "unsupported P2P mining-context version")
  else
    let zanoHeight ← takeUInt64
      (.runtimeError "truncated P2P mining-context uint64")
    let prevHash ← takeBitVec256 readPastEnd
    let networkDifficulty ← takeBitVec128 readPastEnd
    let seed ← takeBitVec256 readPastEnd
    let blockRewardWithoutFee ← takeUInt64
      (.runtimeError "truncated P2P mining-context uint64")
    let blockReward ← takeUInt64
      (.runtimeError "truncated P2P mining-context uint64")
    let txsFee ← takeUInt64
      (.runtimeError "truncated P2P mining-context uint64")
    let blockBlobSize ← takeUInt32
      (.runtimeError "truncated P2P mining-context uint32")
    let tgcSize ← takeUInt32
      (.runtimeError "truncated P2P mining-context uint32")
    let components ← takeMiningContextComponents blockBlobSize tgcSize
    return {
      version, zanoHeight, prevHash, networkDifficulty, seed
      blockRewardWithoutFee, blockReward, txsFee
      blockTemplateBlob := components.1
      minerTxTgcJson := components.2 }

def deserializeP2pMiningContextPayload
    (json : JsonBackend)
    (payload : List UInt8) :
    Except Exception P2pMiningContextProposal :=
  if payload.length < kP2pMiningContextFixedPayloadSize ∨
      payload.length > kP2pMaxPayloadSize then
    throw (.runtimeError "invalid P2P mining-context payload size")
  else do
    let read ← readP2pMiningContext.run payload
    requireProposalSerializable json read.1
    return read.1

/-- The identity of a proposal: the hash of its encoding. -/
def p2pMiningContextId
    (backend : Backend)
    (json : JsonBackend)
    (proposal : P2pMiningContextProposal) :
    Except Exception P2pMiningContextId := do
  let payload ← serializeP2pMiningContextPayload json proposal
  return backend.cnFastHash payload

section Structure

/-- Read a number that must be encoded in its shortest form. -/
def readContextVarint : Cursor Exception Nat := do
  let before ← get
  let value ← takeVarint
    (.runtimeError "truncated Zano varint in mining context")
    (.runtimeError "Zano varint overflows uint64 in mining context")
    (.runtimeError "Zano varint too long in mining context")
  let after ← get
  if before.length - after.length ≠ (varint value).length then
    throw (.runtimeError "non-canonical Zano varint in mining context")
  else
    return value

/-- The header fields after the previous hash: two numbers and the flags. -/
def readContextHeaderTail : Cursor Exception Unit := do
  let _ ← readContextVarint
  let _ ← readContextVarint
  let flags ← takeByte
    (.runtimeError "truncated P2P mining-context block flags")
  if flags ≠ 0 then
    throw (.runtimeError "P2P mining context is not a PoW block template")
  else
    return ()

/-- The height that a coinbase input names. -/
def readCoinbaseHeight : Cursor Exception Nat := do
  let txVersion ← readContextVarint
  let vinCount ← readContextVarint
  let remaining ← get
  if txVersion ≠ 4 ∨ vinCount ≠ 1 ∨ remaining.isEmpty then
    throw (.runtimeError
      "invalid current P2P mining-context coinbase inputs")
  else
    let inputTag ← takeByte readPastEnd
    if inputTag ≠ 0 then
      throw (.runtimeError "P2P mining-context coinbase is not txin_gen")
    else
      readContextVarint

/-- The template belongs to the metadata it was proposed with. -/
def requireCurrentHf6StructuralBindings
    (proposal : P2pMiningContextProposal)
    (work : MiningHeaderWork) :
    Except Exception Unit :=
  let blob := proposal.blockTemplateBlob
  if blob.length < 42 then
    throw (.runtimeError "P2P mining-context block blob is too short")
  else if !((blob.drop 1).take 8).all (· == 0) then
    throw (.runtimeError "P2P mining-context template nonce is not zero")
  else if (blob.drop 9).take 32 ≠ hashBytes proposal.prevHash then
    throw (.runtimeError
      "P2P mining-context block previous hash does not match metadata")
  else do
    let header ← readContextHeaderTail.run (blob.drop 41)
    if blob.length - header.2.length ≠ work.blockHeader.serializedSize then
      throw (.runtimeError "P2P mining-context header boundary mismatch")
    else if work.minerTxPrefix.version ≠ 4 ∨
        work.minerTxPrefix.hardforkId ≠ 6 then
      throw (.runtimeError
        "unsupported P2P mining-context miner transaction")
    else
      let height ← readCoinbaseHeight.run
        (blob.drop work.blockHeader.serializedSize)
      if height.1 ≠ proposal.zanoHeight.toNat then
        throw (.runtimeError "P2P mining-context coinbase height mismatch")
      else
        return ()

/-- The mining header of a proposal with a valid structure. -/
def validateP2pMiningContextStructure
    (backend : Backend)
    (json : JsonBackend)
    (proposal : P2pMiningContextProposal) :
    Except Exception Hash256 := do
  let work ← deriveMiningHeaderWork backend proposal.blockTemplateBlob
  requireCurrentHf6StructuralBindings proposal work
  requireValidTgcJson json proposal.minerTxTgcJson
  return work.headerHash

end Structure

end ZanoP2pool
