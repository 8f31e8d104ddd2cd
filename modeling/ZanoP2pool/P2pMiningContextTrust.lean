import ZanoP2pool.P2pMinerTxProofs
import ZanoP2pool.P2pShare

namespace ZanoP2pool

open Foundation

/-!
# Trust in announced mining work

The only crossing by which work that a peer announced enters the registry of
trusted work: the proposal matches a local anchor, and its miner transaction pays
what is expected and carries valid proofs.
-/

/-- The backends that the checks of peer work use. -/
structure TrustBackend where
  hashing : Backend
  curve : CurveBackend
  json : JsonBackend
  proofs : ProofBackend

def makeP2pMiningContextEnvelope
    (json : JsonBackend)
    (proposal : P2pMiningContextProposal) :
    Except Exception P2pEnvelope := do
  let payload ← serializeP2pMiningContextPayload json proposal
  return { type := .miningContextAnnounce, payload }

def parseP2pMiningContextEnvelope
    (json : JsonBackend)
    (envelope : P2pEnvelope) :
    Except Exception P2pMiningContextProposal := do
  requireEnvelopeType envelope .miningContextAnnounce
    "P2P envelope is not a mining-context announcement"
  deserializeP2pMiningContextPayload json envelope.payload

/-- Whether a proposal claims what the local daemon observed. -/
def anchorMatches
    (proposal : P2pMiningContextProposal)
    (anchor : P2pMiningAnchor) :
    Bool :=
  proposal.zanoHeight = anchor.zanoHeight ∧
    proposal.prevHash = anchor.prevHash ∧
    proposal.networkDifficulty = anchor.networkDifficulty ∧
    proposal.seed = anchor.seed ∧
    proposal.blockRewardWithoutFee = anchor.blockRewardWithoutFee

def inspectP2pMiningContext
    (backend : Backend)
    (json : JsonBackend)
    (peer : P2pHandshake)
    (envelope : P2pEnvelope)
    (localAnchor : P2pMiningAnchor) :
    Except Exception P2pMiningContextCheckResult :=
  if peer.capabilities &&& kP2pCapabilityMiningContext = 0 then
    return { status := .capabilityMissing }
  else do
    let proposal ← parseP2pMiningContextEnvelope json envelope
    let proposalId ← p2pMiningContextId backend json proposal
    if !anchorMatches proposal localAnchor then
      return { status := .anchorMismatch, proposalId }
    else do
      let work ← deriveMiningHeaderWork backend proposal.blockTemplateBlob
      requireCurrentHf6StructuralBindings proposal work
      requireValidTgcJson json proposal.minerTxTgcJson
      return {
        status := .anchoredUnverifiedMinerTx
        proposalId
        miningHeaderHash := work.headerHash
        regularTransactionCount := work.txHashes.hashes.length }

inductive P2pMiningContextTrustStatus where
  | trusted
  | capabilityMissing
  | anchorMismatch
  | proofsRejected
  deriving Repr, DecidableEq

structure P2pMiningContextTrustResult where
  status : P2pMiningContextTrustStatus := .proofsRejected
  checkStatus : P2pMiningContextCheckStatus := .anchorMismatch
  proofStatus : P2pMinerTxProofStatus := .notAnchored
  payoutStatus : P2pPayoutPolicyStatus := .malformedMinerTxPrefix
  proposalId : P2pMiningContextId := 0
  trustedContext : Option ShareWorkContext := none
  registryInserted : Bool := false
  deriving Repr, DecidableEq

abbrev RegistryM := EStateM Exception P2pTrustedWorkRegistry

/-- Trust a context for a parent, with the Zano parent that authorized it. -/
def rememberTrusted
    (context : ShareWorkContext)
    (parentId : ShareId)
    (zanoParentHash : Hash256) :
    RegistryM Unit := do
  let registry ← get
  let remembered ← orThrow
    (registry.rememberWithProvenance context parentId zanoParentHash)
  set remembered

/-- Trust announced work for a parent, if it pays what is expected there. -/
def promoteP2pMiningContext
    (backends : TrustBackend)
    (peer : P2pHandshake)
    (envelope : P2pEnvelope)
    (localAnchor : P2pMiningAnchor)
    (expectedParentId : ShareId)
    (expected : ExpectedPayout) :
    RegistryM P2pMiningContextTrustResult := do
  let check ← orThrow (inspectP2pMiningContext backends.hashing backends.json
    peer envelope localAnchor)
  let inspected : P2pMiningContextTrustResult :=
    { checkStatus := check.status, proposalId := check.proposalId }
  if check.status = .capabilityMissing then
    return { inspected with status := .capabilityMissing }
  else if check.status ≠ .anchoredUnverifiedMinerTx then
    return { inspected with status := .anchorMismatch }
  else
    let proposal ← orThrow
      (parseP2pMiningContextEnvelope backends.json envelope)
    let proof := verifyP2pMiningContextProofs backends.hashing backends.curve
      backends.json backends.proofs proposal check expected
    let verified : P2pMiningContextTrustResult :=
      { inspected with
        proofStatus := proof.status, payoutStatus := proof.payoutStatus }
    if proof.status ≠ .proofsVerified then
      return { verified with status := .proofsRejected }
    else
      let context : ShareWorkContext := {
        zanoHeight := localAnchor.zanoHeight
        miningHeaderHash := check.miningHeaderHash
        networkDifficulty := localAnchor.networkDifficulty }
      let registry ← get
      let alreadyTrusted :=
        (registry.find context.zanoHeight context.miningHeaderHash
          expectedParentId).isSome
      rememberTrusted context expectedParentId localAnchor.prevHash
      return { verified with
        trustedContext := some context
        registryInserted := !alreadyTrusted
        status := .trusted }

/-- Trust the work of a share without a parent; its destination is free. -/
def promoteBootstrapP2pMiningContext
    (backends : TrustBackend)
    (peer : P2pHandshake)
    (envelope : P2pEnvelope)
    (localAnchor : P2pMiningAnchor) :
    RegistryM P2pMiningContextTrustResult :=
  promoteP2pMiningContext backends peer envelope localAnchor 0 .bootstrap

end ZanoP2pool
