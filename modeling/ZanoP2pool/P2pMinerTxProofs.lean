import ZanoP2pool.P2pMiningContext
import ZanoP2pool.P2pPayoutPolicy

namespace ZanoP2pool

open Foundation

/-!
# Proofs of miner transactions

The last check before a proposal of a peer can be trusted: its payout policy, its
balance proof and its range proof.  Zano's proof verifiers are outside this
repository; they are fields of a backend.
-/

def kBalanceProofPayloadSize : Nat := 96

def kBalanceProofSerializedSize : Nat := 1 + kBalanceProofPayloadSize

def kRangeProofTag : UInt8 := 47

def kBalanceProofTag : UInt8 := 48

def kBppLog2N : Nat := 6

inductive P2pMiningContextCheckStatus where
  | anchoredUnverifiedMinerTx
  | capabilityMissing
  | anchorMismatch
  deriving Repr, DecidableEq

/-- What the inspection of an announced proposal found. -/
structure P2pMiningContextCheckResult where
  status : P2pMiningContextCheckStatus := .anchorMismatch
  proposalId : P2pMiningContextId := 0
  miningHeaderHash : Hash256 := 0
  regularTransactionCount : Nat := 0
  deriving Repr, DecidableEq

structure ZanoBppSignature where
  left : List ZanoCurveKey
  right : List ZanoCurveKey
  a0 : ZanoCurveKey
  a : ZanoCurveKey
  b : ZanoCurveKey
  r : ZanoCurveKey
  s : ZanoCurveKey
  delta : ZanoCurveKey
  deriving Repr, DecidableEq

structure ZanoUgAggregationProof where
  amountCommitmentsForRpAggregation : List ZanoCurveKey
  y0s : List ZanoCurveKey
  y1s : List ZanoCurveKey
  c : ZanoCurveKey
  deriving Repr, DecidableEq

/-- Zano's verifiers of the two proofs of a miner transaction. -/
structure ProofBackend where
  -- transaction, block reward, transaction key, commitments, proof
  verifyHf6MinerBalanceProof :
    ZanoCurveKey → UInt64 → ZanoCurveKey → List ZanoCurveKey → List UInt8 →
      Bool
  -- transaction, commitments, blinded asset ids, range proof, aggregation
  verifyHf6MinerRangeProof :
    ZanoCurveKey → List ZanoCurveKey → List ZanoCurveKey →
      ZanoBppSignature → ZanoUgAggregationProof → Bool

inductive P2pMinerTxProofStatus where
  | balanceVerifiedRangePending
  | proofsVerified
  | notAnchored
  | payoutPolicyFailed
  | backendUnavailable
  | malformedBlock
  | malformedRangeProof
  | invalidBalanceProof
  | invalidRangeProof
  deriving Repr, DecidableEq

structure P2pMinerTxProofResult where
  status : P2pMinerTxProofStatus := .malformedBlock
  payoutStatus : P2pPayoutPolicyStatus := .malformedMinerTxPrefix
  deriving Repr, DecidableEq

namespace ProofData

def truncated : Exception :=
  .runtimeError "truncated miner transaction/proof data"

def readU8 : Cursor Exception UInt8 := takeByte truncated

/-- Read a number that must be encoded in its shortest form. -/
def readVarint : Cursor Exception Nat := do
  let before ← get
  let value ← takeVarint truncated
    (.runtimeError "miner-tx varint overflows uint64")
    (.runtimeError "miner-tx varint is too long")
  let after ← get
  if before.length - after.length ≠ (varint value).length then
    throw (.runtimeError "non-canonical miner-tx varint")
  else
    return value

def skip (count : Nat) : Cursor Exception Unit := do
  let _ ← takeBytes count truncated
  return ()

def skipBlob : Cursor Exception Unit := do
  let count ← readVarint
  skip count

def readKey : Cursor Exception ZanoCurveKey := do
  let value ← takeBigEndian 32 truncated
  return BitVec.ofNat 256 value

def readKeys : Nat → Cursor Exception (List ZanoCurveKey)
  | 0 => return []
  | count + 1 => do
      let key ← readKey
      let keys ← readKeys count
      return key :: keys

def readKeyVector (maxCount : Nat) : Cursor Exception (List ZanoCurveKey) := do
  let count ← readVarint
  if count > maxCount then
    throw (.runtimeError "proof vector exceeds current HF6 bound")
  else
    readKeys count

end ProofData

/-- Read a number of extra fields and the transaction key among them. -/
def parseCurrentExtras :
    Nat → Option ZanoCurveKey → Cursor Exception (Option ZanoCurveKey)
  | 0, found => return found
  | count + 1, found => do
      let tag ← ProofData.readU8
      if tag = 11 ∨ tag = 19 ∨ tag = 21 then do
        ProofData.skipBlob
        parseCurrentExtras count found
      else if tag = 14 ∨ tag = 15 ∨ tag = 16 ∨ tag = 78 then do
        let _ ← ProofData.readVarint
        parseCurrentExtras count found
      else if tag = 18 then do
        let _ ← ProofData.readVarint
        ProofData.skip 32
        let _ ← ProofData.readVarint
        parseCurrentExtras count found
      else if tag = 22 then
        if found.isSome then
          throw (.runtimeError "multiple miner transaction public keys")
        else do
          let key ← ProofData.readKey
          parseCurrentExtras count (some key)
      else
        throw (.runtimeError
          ("unsupported current miner-tx extra tag: " ++ toString tag))

structure ParsedProofInputs where
  txPublicKey : ZanoCurveKey
  amountCommitments : List ZanoCurveKey
  blindedAssetIds : List ZanoCurveKey
  deriving Repr, DecidableEq

/-- The commitments and the blinded asset ids of a number of outputs. -/
def readProofOutputs :
    Nat → Cursor Exception (List (ZanoCurveKey × ZanoCurveKey))
  | 0 => return []
  | count + 1 => do
      let tag ← ProofData.readU8
      if tag ≠ 63 then
        throw (.runtimeError "unsupported current miner output")
      else do
        let version ← ProofData.readU8
        if version ≠ 0 then
          throw (.runtimeError "unsupported current miner output")
        else do
          ProofData.skip 32
          ProofData.skip 32
          let amountCommitment ← ProofData.readKey
          let blindedAssetId ← ProofData.readKey
          ProofData.skip (8 + 8 + 1)
          let outputs ← readProofOutputs count
          return (amountCommitment, blindedAssetId) :: outputs

/-- The fields of a prefix that the proofs are about. -/
def proofInputFields : Cursor Exception ParsedProofInputs := do
  let version ← ProofData.readVarint
  if version ≠ 4 then
    throw (.runtimeError "unsupported miner transaction version")
  else do
    let vinCount ← ProofData.readVarint
    if vinCount ≠ 1 then
      throw (.runtimeError
        "current PoW miner transaction must have txin_gen")
    else do
      let input ← ProofData.readU8
      if input ≠ 0 then
        throw (.runtimeError
          "current PoW miner transaction must have txin_gen")
      else do
        let _ ← ProofData.readVarint
        let extraCount ← ProofData.readVarint
        if extraCount > 1024 then
          throw (.runtimeError
            "unreasonable miner transaction extra count")
        else do
          let found ← parseCurrentExtras extraCount none
          match found with
          | none =>
              throw (.runtimeError "miner transaction has no public key")
          | some txPublicKey => do
              let outputCount ← ProofData.readVarint
              if outputCount < kCurrentMinerMinOutputs ∨
                  outputCount > kCurrentMinerMaxOutputs then
                throw (.runtimeError "invalid current miner output count")
              else do
                let outputs ← readProofOutputs outputCount
                let hardforkId ← ProofData.readU8
                let rest ← get
                if hardforkId ≠ 6 ∨ rest ≠ [] then
                  throw (.runtimeError
                    "unexpected miner hardfork/trailing prefix data")
                else
                  return {
                    txPublicKey
                    amountCommitments := outputs.map Prod.fst
                    blindedAssetIds := outputs.map Prod.snd }

def parseProofInputs
    (minerTxPrefix : List UInt8) :
    Except Exception ParsedProofInputs := do
  let read ← proofInputFields.run minerTxPrefix
  return read.1

/-- The number of times a count has to be halved, rounding up, to reach one. -/
def ceilLog2 (value : Nat) : Nat :=
  if value ≤ 1 then 0 else Nat.log2 (value - 1) + 1

structure ParsedRangeProof where
  bpp : ZanoBppSignature
  aggregation : ZanoUgAggregationProof
  deriving Repr, DecidableEq

/-- The fields of a range proof for a number of outputs. -/
def rangeProofFields
    (outputCount : Nat) :
    Cursor Exception ParsedRangeProof := do
  let expectedRounds := kBppLog2N + ceilLog2 outputCount
  let left ← ProofData.readKeyVector (kBppLog2N + 5)
  let right ← ProofData.readKeyVector (kBppLog2N + 5)
  if left.length ≠ expectedRounds ∨ right.length ≠ expectedRounds then
    throw (.runtimeError "unexpected current BPP round count")
  else do
    let a0 ← ProofData.readKey
    let a ← ProofData.readKey
    let b ← ProofData.readKey
    let r ← ProofData.readKey
    let s ← ProofData.readKey
    let delta ← ProofData.readKey
    let amountCommitmentsForRpAggregation ←
      ProofData.readKeyVector kCurrentMinerMaxOutputs
    let y0s ← ProofData.readKeyVector kCurrentMinerMaxOutputs
    let y1s ← ProofData.readKeyVector kCurrentMinerMaxOutputs
    let c ← ProofData.readKey
    let rest ← get
    if amountCommitmentsForRpAggregation.length ≠ outputCount ∨
        y0s.length ≠ outputCount ∨ y1s.length ≠ outputCount ∨ rest ≠ [] then
      throw (.runtimeError
        "range-proof aggregation count/trailing-data mismatch")
    else
      return {
        bpp := { left, right, a0, a, b, r, s, delta }
        aggregation := { amountCommitmentsForRpAggregation, y0s, y1s, c } }

def parseCurrentRangeProof
    (bytes : List UInt8)
    (outputCount : Nat) :
    Except Exception ParsedRangeProof :=
  if outputCount < kCurrentMinerMinOutputs ∨
      outputCount > kCurrentMinerMaxOutputs then
    throw (.runtimeError "invalid output count for range proof")
  else do
    let read ← (rangeProofFields outputCount).run bytes
    return read.1

/-- The bytes of the range proof, between the prefix and the balance proof. -/
def currentRangeProofPayload
    (proposal : P2pMiningContextProposal)
    (work : MiningHeaderWork) :
    Except Exception (List UInt8) :=
  let blob := proposal.blockTemplateBlob
  let minerSuffixOffset :=
    work.blockHeader.serializedSize + work.minerTxPrefix.serializedSize
  let txHashesOffset := work.txHashes.serializedOffset
  if minerSuffixOffset > blob.length ∨ txHashesOffset > blob.length ∨
      txHashesOffset < kBalanceProofSerializedSize ∨
      minerSuffixOffset + 4 > txHashesOffset then
    throw (.runtimeError "invalid current miner proof offsets")
  else if (blob.drop minerSuffixOffset).take 4 ≠ [0, 0, 2, kRangeProofTag] then
    throw (.runtimeError "unexpected current miner proof vector shape")
  else
    let balanceTagOffset := txHashesOffset - kBalanceProofSerializedSize
    let rangeBegin := minerSuffixOffset + 4
    if balanceTagOffset ≤ rangeBegin ∨
        blob[balanceTagOffset]? ≠ some kBalanceProofTag then
      throw (.runtimeError "missing current balance proof after range proof")
    else
      return (blob.drop rangeBegin).take (balanceTagOffset - rangeBegin)

/-- The work of a proposal whose header is the one that was checked. -/
def checkedHeaderWork
    (backend : Backend)
    (proposal : P2pMiningContextProposal)
    (anchoredCheck : P2pMiningContextCheckResult) :
    Except Exception (Option MiningHeaderWork) := do
  let work ← deriveMiningHeaderWork backend proposal.blockTemplateBlob
  if work.headerHash ≠ anchoredCheck.miningHeaderHash ∨
      work.minerTxPrefix.hash = 0 then
    return none
  else
    return some work

/-- The status of a balance proof. -/
def balanceProofStatus
    (backend : Backend)
    (proofs : ProofBackend)
    (proposal : P2pMiningContextProposal)
    (anchoredCheck : P2pMiningContextCheckResult) :
    Except Exception P2pMinerTxProofStatus := do
  match ← checkedHeaderWork backend proposal anchoredCheck with
  | none => return .notAnchored
  | some work => do
      let inputs ← parseProofInputs work.minerTxPrefix.serialized
      let txHashesOffset := work.txHashes.serializedOffset
      if txHashesOffset < kBalanceProofSerializedSize ∨
          txHashesOffset > proposal.blockTemplateBlob.length then
        return .malformedBlock
      else
        let balanceTagOffset := txHashesOffset - kBalanceProofSerializedSize
        if proposal.blockTemplateBlob[balanceTagOffset]? ≠
            some kBalanceProofTag then
          return .malformedBlock
        else if !proofs.verifyHf6MinerBalanceProof work.minerTxPrefix.hash
            proposal.blockReward inputs.txPublicKey inputs.amountCommitments
            ((proposal.blockTemplateBlob.drop (balanceTagOffset + 1)).take
              kBalanceProofPayloadSize) then
          return .invalidBalanceProof
        else
          return .balanceVerifiedRangePending

/-- The balance proof, once the payout policy is satisfied. -/
def verifyBalanceAfterPayout
    (backend : Backend)
    (curve : CurveBackend)
    (proofs : ProofBackend)
    (proposal : P2pMiningContextProposal)
    (anchoredCheck : P2pMiningContextCheckResult)
    (payout : P2pPayoutPolicyResult) :
    P2pMinerTxProofResult :=
  if payout.status ≠ .verified then
    { payoutStatus := payout.status
      status :=
        if payout.status = .notAnchored then .notAnchored
        else if payout.status = .backendUnavailable then .backendUnavailable
        else .payoutPolicyFailed }
  else if !curve.available then
    { payoutStatus := payout.status, status := .backendUnavailable }
  else
    match balanceProofStatus backend proofs proposal anchoredCheck with
    | .ok status => { payoutStatus := payout.status, status }
    | .error _ => { payoutStatus := payout.status, status := .malformedBlock }

/-- The status of a range proof. -/
def rangeProofStatus
    (backend : Backend)
    (proofs : ProofBackend)
    (proposal : P2pMiningContextProposal)
    (anchoredCheck : P2pMiningContextCheckResult) :
    Except Exception P2pMinerTxProofStatus := do
  match ← checkedHeaderWork backend proposal anchoredCheck with
  | none => return .notAnchored
  | some work => do
      let inputs ← parseProofInputs work.minerTxPrefix.serialized
      let payload ← currentRangeProofPayload proposal work
      let range ← parseCurrentRangeProof payload
        inputs.amountCommitments.length
      if !proofs.verifyHf6MinerRangeProof work.minerTxPrefix.hash
          inputs.amountCommitments inputs.blindedAssetIds range.bpp
          range.aggregation then
        return .invalidRangeProof
      else
        return .proofsVerified

/-- The range proof, once the balance proof holds. -/
def verifyRangeAfterBalance
    (backend : Backend)
    (proofs : ProofBackend)
    (proposal : P2pMiningContextProposal)
    (anchoredCheck : P2pMiningContextCheckResult)
    (result : P2pMinerTxProofResult) :
    P2pMinerTxProofResult :=
  if result.status ≠ .balanceVerifiedRangePending then
    result
  else
    match rangeProofStatus backend proofs proposal anchoredCheck with
    | .ok status => { result with status }
    | .error (.runtimeError _) => { result with status := .malformedRangeProof }
    | .error _ => { result with status := .malformedBlock }

/-- What the miner transaction of a proposal is expected to pay. -/
inductive ExpectedPayout where
  | bootstrap
  | address (payout : PayoutPublicKeys)
  | plan (plan : PplnsCoinbasePlan)
  deriving Repr, DecidableEq

/-- The payout policy of the miner transaction, by what it has to pay. -/
def verifyMinerTxPolicy
    (backend : Backend)
    (curve : CurveBackend)
    (json : JsonBackend)
    (minerTxPrefix : List UInt8)
    (proposal : P2pMiningContextProposal) :
    ExpectedPayout → P2pPayoutPolicyResult
  | .bootstrap =>
      verifyMinerTxBootstrapPolicy curve json minerTxPrefix
        proposal.minerTxTgcJson proposal.blockRewardWithoutFee
        proposal.blockReward proposal.txsFee
  | .address payout =>
      verifyMinerTxAddressPolicy curve json minerTxPrefix
        proposal.minerTxTgcJson proposal.blockRewardWithoutFee
        proposal.blockReward proposal.txsFee payout
  | .plan plan =>
      verifyMinerTxPayoutPolicy backend curve json minerTxPrefix
        proposal.minerTxTgcJson proposal.blockRewardWithoutFee
        proposal.blockReward proposal.txsFee plan

/--
The payout policy of an anchored proposal.  The id of a proposal that was read
from an envelope is always computed, so its failure is not a case of its own.
-/
def verifyP2pMiningContextPayoutPolicy
    (backend : Backend)
    (curve : CurveBackend)
    (json : JsonBackend)
    (proposal : P2pMiningContextProposal)
    (anchoredCheck : P2pMiningContextCheckResult)
    (expected : ExpectedPayout) :
    P2pPayoutPolicyResult :=
  if anchoredCheck.status ≠ .anchoredUnverifiedMinerTx ∨
      p2pMiningContextId backend json proposal ≠
        .ok anchoredCheck.proposalId then
    { status := .notAnchored }
  else
    match deriveMiningHeaderWork backend proposal.blockTemplateBlob with
    | .error _ => { status := .malformedMinerTxPrefix }
    | .ok work =>
        if work.headerHash ≠ anchoredCheck.miningHeaderHash then
          { status := .notAnchored }
        else
          verifyMinerTxPolicy backend curve json work.minerTxPrefix.serialized
            proposal expected

/-- The payout policy and both proofs of an anchored proposal. -/
def verifyP2pMiningContextProofs
    (backend : Backend)
    (curve : CurveBackend)
    (json : JsonBackend)
    (proofs : ProofBackend)
    (proposal : P2pMiningContextProposal)
    (anchoredCheck : P2pMiningContextCheckResult)
    (expected : ExpectedPayout) :
    P2pMinerTxProofResult :=
  verifyRangeAfterBalance backend proofs proposal anchoredCheck
    (verifyBalanceAfterPayout backend curve proofs proposal anchoredCheck
      (verifyP2pMiningContextPayoutPolicy backend curve json proposal
        anchoredCheck expected))

end ZanoP2pool
