import ZanoP2pool.P2pNodeHandle
import ZanoP2pool.ShareChainReachable

namespace ZanoP2pool

open Foundation

/-!
# Operations of a node

The entry points of `P2pNodeProtocol` besides the handler: autonomous retries and
replay recovery, which re-enter the handler, the setters of the local context, the
local authorization of work, and reconciliation.
-/

section Admitted

/-- Add a share unless one with its identity is listed. -/
def appendUnique
    (backend : Backend)
    (admitted : List Share)
    (share : Share) :
    Except Exception (List Share) := do
  let id ← shareId backend share
  let listed ← admitted.mapM (shareId backend)
  if listed.contains id then
    return admitted
  else
    return admitted ++ [share]

/-- The share that the message itself carried into the chain. -/
def directlyAdmitted
    (backend : Backend)
    (result : P2pNodeMessageResult)
    (envelope : P2pEnvelope) :
    Except Exception (Option Share) :=
  if result.shareStatus = .connected ∨ result.shareStatus = .orphan then
    match result.status with
    | .shareProcessed => do
        let share ← parseP2pShareAnnounceEnvelope backend envelope
        return some share
    | .shareResponseProcessed => do
        let response ← parseP2pShareResponseEnvelope backend envelope
        return response.share
    | _ => return none
  else
    return none

def p2pNodeUniqueAdmittedShares
    (backend : Backend)
    (result : P2pNodeMessageResult)
    (envelope : P2pEnvelope) :
    Except Exception (List Share) := do
  let direct ← directlyAdmitted backend result envelope
  (direct.toList ++ result.historicalAdmittedShares).foldlM
    (appendUnique backend) []

end Admitted

section Retry

structure P2pHistoricalRetrySummary where
  attempted : Nat := 0
  trusted : Nat := 0
  connected : Nat := 0
  admittedShares : List Share := []
  prunedShareIds : List ShareId := []
  prunedConnectedShares : Nat := 0
  remaining : Nat := 0
  deriving Repr, DecidableEq

variable (environment : NodeEnvironment)
variable (now : UInt64) (mode : ProgPowZContextMode)

/-- The message that makes the node look at a share again. -/
def retryEnvelope
    (backend : Backend)
    (candidate : RetryableHistoricalCandidate) :
    Except Exception P2pEnvelope :=
  if candidate.requiredCapability = kP2pCapabilityShareGossip then
    makeP2pShareAnnounceEnvelope backend candidate.share
  else if candidate.requiredCapability = kP2pCapabilityShareSync then do
    let requestedId ← shareId backend candidate.share
    makeP2pShareResponseEnvelope backend requestedId (some candidate.share)
  else
    throw (.logicError "unsupported historical retry capability")

/-- Register a candidate again after a failure, while it is live. -/
def P2pNode.restoreRetryable
    (candidate : RetryableHistoricalCandidate)
    (id : ShareId)
    (node : P2pNode) :
    P2pNode :=
  if !P2pNode.pastLifetime now candidate.started ∧
      !node.retryableHistorical.contains id then
    { node with
      retryableHistorical := node.retryableHistorical.insert id candidate }
  else
    node

/-- Handle the message of a retry; a failure keeps the registration. -/
def handleRetry
    (candidate : RetryableHistoricalCandidate)
    (envelope : P2pEnvelope) :
    NodeM P2pNodeMessageResult := fun node =>
  match P2pNode.handle environment
      { peer := candidate.candidatePeer, envelope, now, mode } node with
  | .ok result next => .ok result next
  | .error thrown next =>
      match shareId environment.backends.hashing candidate.share with
      | .error other =>
          .error (if P2pNode.pastLifetime now candidate.started then thrown
            else other) next
      | .ok id => .error thrown (next.restoreRetryable now candidate id)

/-- Drop the registration of a share that never reached historical trust. -/
def settleRetry
    (backend : Backend)
    (share : Share)
    (result : P2pNodeMessageResult) :
    NodeM Unit := do
  if result.historicalTrustStatus.isNone ∧
      result.shareStatus ≠ .unknownWorkContext then
    let id ← orThrow (shareId backend share)
    modify fun node =>
      { node with retryableHistorical := node.retryableHistorical.erase id }
  else
    return ()

/-- One retry, added to the summary of the earlier ones. -/
def retryCandidate
    (summary : P2pHistoricalRetrySummary)
    (candidate : RetryableHistoricalCandidate) :
    NodeM P2pHistoricalRetrySummary := do
  let backend := environment.backends.hashing
  let envelope ← orThrow (retryEnvelope backend candidate)
  let result ← handleRetry environment now mode candidate envelope
  let admitted ← orThrow
    (p2pNodeUniqueAdmittedShares backend result envelope)
  let admittedShares ← orThrow
    (admitted.foldlM (appendUnique backend) summary.admittedShares)
  settleRetry backend candidate.share result
  return { summary with
    admittedShares
    trusted := summary.trusted +
      (if result.historicalTrustStatus = some .trusted then 1 else 0)
    connected := summary.connected +
      (if result.historicalShareConnected then 1 else 0)
    prunedShareIds :=
      summary.prunedShareIds ++ result.historicalPrunedShareIds
    prunedConnectedShares := summary.prunedConnectedShares +
      result.historicalPrunedConnectedShares }

def retryCandidates :
    P2pHistoricalRetrySummary → List RetryableHistoricalCandidate →
      NodeM P2pHistoricalRetrySummary
  | summary, [] => return summary
  | summary, candidate :: rest => do
      let next ← retryCandidate environment now mode summary candidate
      retryCandidates next rest

def P2pNode.retryHistoricalPowUnavailable :
    NodeM P2pHistoricalRetrySummary := do
  modify (expireHistoricalState now)
  let node ← get
  let retry := node.retryableHistorical.toList.map Prod.snd
  let summary ← retryCandidates environment now mode
    { attempted := retry.length } retry
  modify (expireHistoricalState now)
  let retried ← get
  return { summary with remaining := retried.retryableHistorical.size }

end Retry

section Recovery

structure P2pReplayRecoverySummary where
  attempted : Nat := 0
  connected : Nat := 0
  prunedShareIds : List ShareId := []
  prunedConnectedShares : Nat := 0
  remaining : Nat := 0
  attemptedShareId : Option ShareId := none
  attemptedParentId : Option ShareId := none
  historicalTrustStatus : Option HistoricalTrustStatus := none
  historicalAnchorStatus : Option HistoricalAnchorStatus := none
  historicalPayoutStatus : Option HistoricalPayoutStatus := none
  historicalPromotionStatus : Option P2pMiningContextTrustStatus := none
  historicalProofStatus : Option P2pMinerTxProofStatus := none
  historicalPayoutPolicyStatus : Option P2pPayoutPolicyStatus := none
  deriving Repr, DecidableEq

variable (environment : NodeEnvironment)
variable (now : UInt64) (mode : ProgPowZContextMode)

/-- The local daemon's word on archived work, without a reconstruction. -/
def auditArchived
    (proposal : P2pMiningContextProposal)
    (observations : List P2pMiningAnchor) :
    NodeM HistoricalAnchorResult :=
  onCalls (auditHistoricalLocalAnchor environment.backends.hashing
    environment.backends.json proposal observations
    (fun height => query fun call =>
      environment.sources.canonicalHeader call height) none)

/-- The work context of archived work that the daemon confirms twice. -/
def confirmedArchived
    (share : Share)
    (proposal : P2pMiningContextProposal) :
    NodeM (Option ShareWorkContext) := do
  let header ← orThrow (validateP2pMiningContextStructure
    environment.backends.hashing environment.backends.json proposal)
  if share.zanoHeight ≠ proposal.zanoHeight ∨
      share.miningHeaderHash ≠ header ∨
      share.networkDifficulty ≠ proposal.networkDifficulty then
    return none
  else
    let observations ← onCalls (query fun call =>
      environment.sources.observations call proposal)
    let initial ← auditArchived environment proposal observations
    if initial.status ≠ .anchorMatchedUntrusted ∨
        initial.miningHeaderHash ≠ header then
      return none
    else
      let final ← auditArchived environment proposal observations
      if final.status ≠ .anchorMatchedUntrusted ∨
          final.miningHeaderHash ≠ initial.miningHeaderHash then
        return none
      else
        return some {
          zanoHeight := proposal.zanoHeight
          miningHeaderHash := header
          networkDifficulty := proposal.networkDifficulty }

/-- The work context that the local archive establishes for a share. -/
def archivedContext (share : Share) : NodeM (Option ShareWorkContext) := do
  match ← readLocalWork environment (P2pNode.workKeyOf share) with
  | none => return none
  | some payload =>
      let proposal ← orThrow (deserializeP2pMiningContextPayload
        environment.backends.json payload)
      confirmedArchived environment share proposal

/-- Validate a share in place with archived work; its status, if it was tried. -/
def revalidateArchived
    (candidateId : ShareId)
    (context : ShareWorkContext) :
    NodeM (Option RevalidateShareStatus) := do
  let node ← get
  match node.chain.find candidateId with
  | none => return none
  | some current =>
      if current.validatedAncestry then
        return some .alreadyValidated
      else
        let revalidated ← onNodeConsensus (onChain
          (ShareChain.revalidateConnectedShare environment.backends.hashing
            candidateId context now mode))
        return some revalidated.status

/-- Try the local archive before any peer. -/
def recoverLocally
    (candidateId : ShareId)
    (share : Share) :
    NodeM (Option RevalidateShareStatus) := do
  match ← archivedContext environment share with
  | none => return none
  | some context =>
      revalidateArchived environment now mode candidateId context

/-- What the handler reported about the frontier of a recovery. -/
def P2pReplayRecoverySummary.ofResult
    (summary : P2pReplayRecoverySummary)
    (result : P2pNodeMessageResult) :
    P2pReplayRecoverySummary :=
  { summary with
    historicalTrustStatus := result.historicalTrustStatus
    historicalAnchorStatus := result.historicalAnchorStatus
    historicalPayoutStatus := result.historicalPayoutStatus
    historicalPromotionStatus := result.historicalPromotionStatus
    historicalProofStatus := result.historicalProofStatus
    historicalPayoutPolicyStatus := result.historicalPayoutPolicyStatus
    prunedShareIds :=
      summary.prunedShareIds ++ result.historicalPrunedShareIds
    prunedConnectedShares := summary.prunedConnectedShares +
      result.historicalPrunedConnectedShares
    connected := summary.connected +
      (if result.historicalShareConnected then 1 else 0) }

/-- Recover one frontier, locally or by handling a synthetic response. -/
def recoverFrontier
    (peer : P2pHandshake)
    (candidateId : ShareId)
    (share : Share)
    (summary : P2pReplayRecoverySummary) :
    NodeM P2pReplayRecoverySummary := do
  match ← recoverLocally environment now mode candidateId share with
  | some .validated =>
      return { summary with
        connected := summary.connected + 1
        historicalTrustStatus := some .trusted }
  | some .alreadyValidated =>
      return { summary with historicalTrustStatus := some .trusted }
  | _ =>
      let envelope ← orThrow (makeP2pShareResponseEnvelope
        environment.backends.hashing candidateId (some share))
      let result ← P2pNode.handle environment { peer, envelope, now, mode }
      return summary.ofResult result

/-- Recover a reserved frontier; a failure gives the reservation up. -/
def recoverReserved
    (peer : P2pHandshake)
    (key : ReplayFrontierKey)
    (candidateId : ShareId)
    (share : Share)
    (summary : P2pReplayRecoverySummary) :
    NodeM P2pReplayRecoverySummary := fun node =>
  match recoverFrontier environment now mode peer candidateId share summary
      node with
  | .ok recovered next => .ok recovered next
  | .error thrown next =>
      .error thrown { next with
        replayFrontierAttempts := next.replayFrontierAttempts.erase key }

/-- The first connected share that a recovery with the peer could try. -/
def P2pNode.nextFrontier (node : P2pNode) (peerId : NodeId) :
    Option (ShareId × Share) :=
  node.chain.pruneOrder.findSome? fun id =>
    (node.untriedFrontier peerId id).map fun share => (id, share)

/-- Recover one frontier with the first peer that has one. -/
def recoverWithPeers :
    List P2pHandshake → NodeM P2pReplayRecoverySummary
  | [] => return {}
  | peer :: rest => do
      if peer.capabilities &&& kP2pCapabilityShareSync = 0 then
        recoverWithPeers rest
      else
        modify (P2pNode.expireHistoricalState now)
        let node ← get
        if node.workRetrieval.isNone ∨ node.historicalParams.isNone then
          return {}
        else
          match node.nextFrontier peer.nodeId with
          | none => recoverWithPeers rest
          | some (frontierId, share) =>
              let key : ReplayFrontierKey :=
                { nodeId := peer.nodeId, shareId := frontierId }
              set { node with
                replayFrontierAttempts :=
                  node.replayFrontierAttempts.insert key now }
              let candidateId ← orThrow
                (shareId environment.backends.hashing share)
              recoverReserved environment now mode peer key candidateId share {
                attempted := 1
                attemptedShareId := some candidateId
                attemptedParentId := some share.parentId }

/-- Advance replay recovery with the peers the transport reports as live. -/
def P2pNode.advanceReplayRecovery
    (peers : List P2pHandshake) :
    NodeM P2pReplayRecoverySummary := do
  let summary ← recoverWithPeers environment now mode peers
  modify (expireHistoricalState now)
  let node ← get
  return { summary with
    remaining := node.chain.connectedShareIds.countP fun id =>
      (node.chain.find id).any fun connected =>
        !connected.validatedAncestry }

end Recovery

section Setters

def P2pNode.setHistoricalTrustSources
    (backend : Backend)
    (params : SidechainParameters) :
    NodeM Unit := do
  let node ← get
  let matching ← orThrow
    (node.chain.matchesSidechainParameters backend params)
  if matching then
    set { node with historicalParams := some params }
  else
    throw (.runtimeError
      "historical trust sidechain parameters do not match chain")

/-- The parent that a payout expectation without an explicit one is bound to. -/
def bestTipParent (chain : ShareChain) : ShareId :=
  match chain.bestTip with
  | none => 0
  | some tip => tip.id

/-- The sidechain parent of local work; an explicit one has to be usable. -/
def resolveParent
    (chain : ShareChain)
    (missing unvalidated : String) :
    Option ShareId → Except Exception ShareId
  | none => return bestTipParent chain
  | some parentId =>
      if isZeroShareId parentId then
        return parentId
      else
        match chain.find parentId with
        | none => throw (.runtimeError missing)
        | some parent =>
            if chain.enforcesSidechainDifficulty ∧
                !parent.validatedAncestry then
              throw (.runtimeError unvalidated)
            else
              return parentId

/-- The authorized context has to be the installed one. -/
def requireInstalledWork
    (backend : Backend)
    (json : JsonBackend)
    (context : ShareWorkContext)
    (anchor : P2pMiningAnchor)
    (proposal : P2pMiningContextProposal) :
    Except Exception Unit :=
  let mismatch : Exception := .runtimeError
    "trusted local work does not match installed Zano mining context"
  if anchor.zanoHeight ≠ context.zanoHeight ∨
      proposal.zanoHeight ≠ context.zanoHeight ∨
      anchor.networkDifficulty ≠ context.networkDifficulty ∨
      proposal.networkDifficulty ≠ context.networkDifficulty ∨
      anchor.prevHash ≠ proposal.prevHash then
    throw mismatch
  else do
    let header ← validateP2pMiningContextStructure backend json proposal
    if header ≠ context.miningHeaderHash then
      throw mismatch
    else
      return ()

/-- An explicit parent has to be the parent of the expected payout. -/
def requirePayoutParent
    (expected : PayoutExpectation)
    (parentId : Option ShareId) :
    Except Exception Unit :=
  match parentId, expected.parentId with
  | some resolved, some payoutParent =>
      if payoutParent ≠ resolved then
        throw (.runtimeError
          "trusted local work parent does not match payout parent")
      else
        return ()
  | _, _ => return ()

def P2pNode.rememberTrustedWork
    (backend : Backend)
    (json : JsonBackend)
    (context : ShareWorkContext)
    (parentId : Option ShareId) :
    NodeM Unit := do
  let node ← get
  match node.localMiningAnchor, node.localMiningContext with
  | some anchor, some proposal =>
      orThrow (requireInstalledWork backend json context anchor proposal)
      let resolved ← orThrow (resolveParent node.chain
        "trusted local work parent is not connected"
        "trusted local work parent lacks validated ancestry" parentId)
      orThrow (requirePayoutParent node.consensus.expected parentId)
      let trustedWork ← orThrow (node.trustedWork.rememberWithProvenance
        context resolved anchor.prevHash)
      set { node with consensus := { node.consensus with trustedWork } }
  | _, _ =>
      throw (.runtimeError
        "trusted local work has no installed Zano mining context")

/-- A local anchor that replaces the Zano parent displaces earlier work. -/
def P2pNode.reconcileLocalParentReplacement
    (nextAnchor : P2pMiningAnchor) :
    NodeM Unit := do
  let node ← get
  if node.localMiningAnchor.any fun anchor =>
      anchor.zanoHeight = nextAnchor.zanoHeight ∧
        anchor.prevHash ≠ nextAnchor.prevHash then
    let _ ← onNodeConsensus (reconcileCanonicalParent nextAnchor.zanoHeight
      nextAnchor.prevHash)
    modify P2pNode.resetExpected
  else
    return ()

/-- The payout that comes with a local context, if any. -/
inductive ContextPayout where
  | unchanged
  | address (payout : PayoutPublicKeys)
  | plan (plan : PplnsCoinbasePlan) (parentId : Option ShareId)
  deriving Repr, DecidableEq

/-- The expectation that an installed payout makes. -/
def ContextPayout.expectation
    (chain : ShareChain)
    (current : PayoutExpectation) :
    ContextPayout → Except Exception PayoutExpectation
  | .unchanged => return current
  | .address payout =>
      return {
        payout := some payout, parentId := some (bestTipParent chain) }
  | .plan coinbase parentId => do
      let resolved ← resolveParent chain
        "local payout-plan parent is not connected"
        "local payout-plan parent lacks validated ancestry" parentId
      return { plan := some coinbase, parentId := some resolved }

/-- Install a local context, with the payout of one of its three overloads. -/
def P2pNode.setLocalMiningContext
    (anchor : P2pMiningAnchor)
    (proposal : P2pMiningContextProposal)
    (payout : ContextPayout) :
    NodeM Unit := do
  reconcileLocalParentReplacement anchor
  let node ← get
  let expected ← orThrow
    (payout.expectation node.chain node.consensus.expected)
  set { node with
    localMiningAnchor := some anchor
    localMiningContext := some proposal
    consensus := { node.consensus with expected } }

def P2pNode.setExpectedPayout
    (payout : PayoutPublicKeys)
    (node : P2pNode) :
    P2pNode :=
  { node with
    consensus := { node.consensus with
      expected := {
        payout := some payout
        parentId := some (bestTipParent node.chain) } } }

def P2pNode.setExpectedPayoutPlan
    (plan : PplnsCoinbasePlan)
    (node : P2pNode) :
    P2pNode :=
  { node with
    consensus := { node.consensus with
      expected := {
        plan := some plan
        parentId := some (bestTipParent node.chain) } } }

end Setters

/-- A call on a node that holds its lock throughout, other than the handler. -/
inductive LocalCall where
  | setHistoricalTrustSources (params : SidechainParameters)
  | setLocalMiningContext
      (anchor : P2pMiningAnchor)
      (proposal : P2pMiningContextProposal)
      (payout : ContextPayout)
  | setExpectedPayout (payout : PayoutPublicKeys)
  | setExpectedPayoutPlan (plan : PplnsCoinbasePlan)
  | clearExpectedPayout
  | rememberTrustedWork
      (context : ShareWorkContext)
      (parentId : Option ShareId)
  | reconcileCanonicalParent
      (zanoHeight : UInt64)
      (canonicalParentHash : Hash256)
  | reconcileUnavailableWorkHeight (zanoHeight : UInt64)
  | reconcileUnavailableWorkAbove (maximumZanoHeight : UInt64)
  | rememberLocal (proposal : P2pMiningContextProposal)
  | chain (op : ChainOp)

/-- Execute one call, dropping its result. -/
def LocalCall.run (environment : NodeEnvironment) : LocalCall → NodeM Unit
  | .setHistoricalTrustSources params =>
      P2pNode.setHistoricalTrustSources environment.backends.hashing params
  | .setLocalMiningContext anchor proposal payout =>
      P2pNode.setLocalMiningContext anchor proposal payout
  | .setExpectedPayout payout => modify (P2pNode.setExpectedPayout payout)
  | .setExpectedPayoutPlan plan => modify (P2pNode.setExpectedPayoutPlan plan)
  | .clearExpectedPayout => modify P2pNode.resetExpected
  | .rememberTrustedWork context parentId =>
      P2pNode.rememberTrustedWork environment.backends.hashing
        environment.backends.json context parentId
  | .reconcileCanonicalParent zanoHeight canonicalParentHash => do
      let _ ← onNodeConsensus (ZanoP2pool.reconcileCanonicalParent zanoHeight
        canonicalParentHash)
  | .reconcileUnavailableWorkHeight zanoHeight => do
      let _ ← onNodeConsensus
        (ZanoP2pool.reconcileUnavailableWorkHeight zanoHeight)
  | .reconcileUnavailableWorkAbove maximumZanoHeight => do
      let _ ← onNodeConsensus
        (ZanoP2pool.reconcileUnavailableWorkAbove maximumZanoHeight)
  | .rememberLocal proposal =>
      onRetrieval (P2pWorkRetrieval.rememberLocal environment.backends.hashing
        environment.backends.json proposal)
  | .chain op =>
      onNodeConsensus (onChain (op.run environment.backends.hashing))

/-- One call on a node, on its retrieval object or on its chain. -/
inductive NodeOp where
  | handle (message : Message)
  | retryHistoricalPowUnavailable
      (now : UInt64)
      (mode : ProgPowZContextMode)
  | advanceReplayRecovery
      (peers : List P2pHandshake)
      (now : UInt64)
      (mode : ProgPowZContextMode)
  | locally (call : LocalCall)

namespace NodeOp

/-- Execute one call, dropping its result. -/
def run (environment : NodeEnvironment) : NodeOp → NodeM Unit
  | .handle message => do
      let _ ← P2pNode.handle environment message
  | .retryHistoricalPowUnavailable now mode => do
      let _ ← P2pNode.retryHistoricalPowUnavailable environment now mode
  | .advanceReplayRecovery peers now mode => do
      let _ ← P2pNode.advanceReplayRecovery environment now mode peers
  | .locally call => call.run environment

/-- The node after one call, whether it returned or threw. -/
def attempt
    (environment : NodeEnvironment)
    (node : P2pNode)
    (op : NodeOp) :
    P2pNode :=
  finalState (op.run environment node)

end NodeOp

/-- The node after a sequence of calls. -/
def attemptNodeOps
    (environment : NodeEnvironment)
    (ops : List NodeOp)
    (node : P2pNode) :
    P2pNode :=
  ops.foldl (NodeOp.attempt environment) node

end ZanoP2pool
