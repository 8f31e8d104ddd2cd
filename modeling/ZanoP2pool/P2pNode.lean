import ZanoP2pool.HistoricalTrust
import ZanoP2pool.P2pSync
import ZanoP2pool.P2pWorkRetrieval
import ZanoP2pool.Reconciliation

namespace ZanoP2pool

open Foundation

/-!
# The state of a node

What `P2pNodeProtocol` holds besides the chain and the registry: the local mining
context, the expected payout and the bounded tables of historical recovery.  Calls
are serialized by the node's mutex, so one call runs on the whole state.

The transport is represented by the list of actions a node asked it to take.
-/

inductive P2pNodeMessageStatus where
  | shareProcessed
  | shareRequestAnswered
  | shareResponseProcessed
  | tipProcessed
  | miningContextProcessed
  | miningContextDeferred
  | unexpectedHandshake
  | miningWorkRequestAnswered
  | miningWorkResponseProcessed
  deriving Repr, DecidableEq

structure P2pNodeMessageResult where
  status : P2pNodeMessageStatus := .unexpectedHandshake
  shareStatus : P2pShareReceiveStatus := .rejected
  syncStatus : P2pShareSyncReceiveStatus := .notFound
  tipStatus : P2pTipSyncStatus := .noRemoteTip
  miningContextStatus : P2pMiningContextTrustStatus := .proofsRejected
  miningContextRegistryInserted : Bool := false
  untrustedWorkReceived : Option Hash256 := none
  historicalTrustStatus : Option HistoricalTrustStatus := none
  historicalAnchorStatus : Option HistoricalAnchorStatus := none
  historicalPayoutStatus : Option HistoricalPayoutStatus := none
  historicalPromotionStatus : Option P2pMiningContextTrustStatus := none
  historicalProofStatus : Option P2pMinerTxProofStatus := none
  historicalPayoutPolicyStatus : Option P2pPayoutPolicyStatus := none
  historicalAttemptShareId : Option ShareId := none
  historicalAttemptParentId : Option ShareId := none
  historicalAttemptZanoHeight : Option UInt64 := none
  historicalAttemptMiningHeaderHash : Option Hash256 := none
  historicalShare : Option Share := none
  historicalAdmittedShares : List Share := []
  historicalShareRetried : Bool := false
  historicalShareConnected : Bool := false
  historicalPrunedShareIds : List ShareId := []
  historicalPrunedConnectedShares : Nat := 0
  sentFollowup : Bool := false
  relayedShare : Bool := false
  relayedTip : Bool := false
  deriving Repr, DecidableEq

/-- A share that waits for its work to be retrieved. -/
structure PendingHistoricalCandidate where
  share : Share
  requiredCapability : UInt64
  started : UInt64
  deriving Repr, DecidableEq

/-- Retrieved work that is not trusted yet. -/
structure HistoricalEvidence where
  proposal : P2pMiningContextProposal
  sourcePeer : P2pHandshake
  received : UInt64
  deriving Repr, DecidableEq

/-- A share that waits for its parent to be validated. -/
structure DeferredHistoricalCandidate where
  share : Share
  candidatePeer : P2pHandshake
  evidence : HistoricalEvidence
  requiredCapability : UInt64
  recoveryRoot : ShareId
  lastProgress : UInt64
  deriving Repr, DecidableEq

/-- A share that waits for the local daemon to reconstruct its work. -/
structure RetryableHistoricalCandidate where
  share : Share
  candidatePeer : P2pHandshake
  requiredCapability : UInt64
  started : UInt64
  deriving Repr, DecidableEq

/-- An attempt to recover a share with a peer's help. -/
structure ReplayFrontierKey where
  nodeId : NodeId
  shareId : ShareId
  deriving Repr, DecidableEq

instance : Ord ReplayFrontierKey where
  compare :=
    compareLex (compareOn ReplayFrontierKey.nodeId)
      (compareOn ReplayFrontierKey.shareId)

instance : Std.TransOrd ReplayFrontierKey :=
  inferInstanceAs (Std.TransCmp
    (compareLex (compareOn ReplayFrontierKey.nodeId)
      (compareOn ReplayFrontierKey.shareId)))

instance : Std.LawfulEqOrd ReplayFrontierKey where
  eq_of_compare := by
    intro first second same
    obtain ⟨nodes, shares⟩ := compareLex_eq_eq.mp same
    obtain ⟨⟩ := first
    obtain ⟨⟩ := second
    simp only [compareOn, Std.LawfulEqOrd.compare_eq_iff_eq] at nodes shares
    simp [nodes, shares]

/-- What a node asks its transport to do. -/
inductive RuntimeAction where
  | reportPeerMisbehavior (nodeId : NodeId) (penalty : UInt32)
  | sendTo (nodeId : NodeId) (envelope : P2pEnvelope)
  | broadcastExcept (nodeId : NodeId) (envelope : P2pEnvelope)
  deriving Repr, DecidableEq

structure P2pNode where
  consensus : ConsensusState := {}
  workRetrieval : Option P2pWorkRetrieval := none
  localMiningAnchor : Option P2pMiningAnchor := none
  localMiningContext : Option P2pMiningContextProposal := none
  -- set together with the local sources
  historicalParams : Option SidechainParameters := none
  pendingHistorical :
    Std.ExtTreeMap PendingKey PendingHistoricalCandidate := ∅
  historicalEvidence : Std.ExtTreeMap MiningWorkKey HistoricalEvidence := ∅
  deferredHistorical : ShareMap DeferredHistoricalCandidate := ∅
  activeDeferredRecoveryRoot : Std.ExtTreeMap NodeId ShareId := ∅
  retryableHistorical : ShareMap RetryableHistoricalCandidate := ∅
  replayFrontierAttempts : Std.ExtTreeMap ReplayFrontierKey UInt64 := ∅
  -- calls of local sources and of the transport so far
  calls : Nat := 0
  actions : List RuntimeAction := []

/-- What surrounds a node: backends, local sources, archive and transport. -/
structure NodeEnvironment where
  backends : TrustBackend
  sources : LocalSources
  archive : Nat → MiningWorkArchive
  delivers : Nat → NodeId → P2pEnvelope → Bool

abbrev NodeM := EStateM Exception P2pNode

namespace P2pNode

def chain (node : P2pNode) : ShareChain := node.consensus.chain

def trustedWork (node : P2pNode) : P2pTrustedWorkRegistry :=
  node.consensus.trustedWork

/-- The key under which the work of a share is retrieved. -/
def workKeyOf (share : Share) : MiningWorkKey where
  zanoHeight := share.zanoHeight
  miningHeaderHash := share.miningHeaderHash

/-- Whether a time is before its start or past its lifetime. -/
def pastLifetime (now started : UInt64) : Bool :=
  now < started ∨ now - started ≥ kMiningWorkRequestLifetime

def expireHistoricalState (now : UInt64) (node : P2pNode) : P2pNode :=
  let deferred := node.deferredHistorical.filter fun _ candidate =>
    !pastLifetime now candidate.lastProgress
  { node with
    pendingHistorical := node.pendingHistorical.filter fun _ candidate =>
      !pastLifetime now candidate.started
    historicalEvidence := node.historicalEvidence.filter fun _ evidence =>
      !pastLifetime now evidence.received
    deferredHistorical := deferred
    -- a selected root is kept while a candidate of its walk is live
    activeDeferredRecoveryRoot :=
      node.activeDeferredRecoveryRoot.filter fun peerId recoveryRoot =>
        deferred.toList.any fun item =>
          item.2.candidatePeer.nodeId = peerId ∧
            item.2.recoveryRoot = recoveryRoot
    retryableHistorical := node.retryableHistorical.filter fun _ candidate =>
      !pastLifetime now candidate.started
    replayFrontierAttempts := node.replayFrontierAttempts.filter fun _ tried =>
      !pastLifetime now tried }

def rememberPendingHistorical
    (peer : P2pHandshake)
    (share : Share)
    (requiredCapability now : UInt64)
    (node : P2pNode) :
    P2pNode :=
  let live := node.expireHistoricalState now
  if live.pendingHistorical.size ≥ kMiningWorkMaxPending then
    live
  else
    { live with
      pendingHistorical := live.pendingHistorical.insertIfNew
        { nodeId := peer.nodeId, key := workKeyOf share }
        { share, requiredCapability, started := now } }

/-- Keep retrieved work; reuse does not renew its lifetime. -/
def rememberHistoricalEvidence
    (key : MiningWorkKey)
    (evidence : HistoricalEvidence)
    (now : UInt64)
    (node : P2pNode) :
    P2pNode :=
  let live := node.expireHistoricalState now
  match live.historicalEvidence[key]? with
  | some existing =>
      { live with
        historicalEvidence := live.historicalEvidence.insert key
          { evidence with received := existing.received } }
  | none =>
      let kept :=
        if live.historicalEvidence.size ≥ kMiningWorkMaxReceived then
          match live.historicalEvidence.minKey? with
          | none => live.historicalEvidence
          | some first => live.historicalEvidence.erase first
        else
          live.historicalEvidence
      { live with
        historicalEvidence := kept.insert key
          { evidence with received := now } }

/-- The walks that a newly deferred share joins: its deferred children's. -/
def joinedRoots
    (deferred : ShareMap DeferredHistoricalCandidate)
    (nodeId : NodeId)
    (id : ShareId) :
    List ShareId :=
  (deferred.toList.filter fun item =>
    item.2.candidatePeer.nodeId = nodeId ∧ item.2.share.parentId = id).map
      fun item => item.2.recoveryRoot

/-- Merge joined walks into one and mark the progress they made. -/
def refreshJoined
    (deferred : ShareMap DeferredHistoricalCandidate)
    (nodeId : NodeId)
    (joined : List ShareId)
    (recoveryRoot : ShareId)
    (now : UInt64) :
    ShareMap DeferredHistoricalCandidate :=
  deferred.map fun _ candidate =>
    if candidate.candidatePeer.nodeId = nodeId ∧
        joined.contains candidate.recoveryRoot then
      { candidate with recoveryRoot, lastProgress := now }
    else
      candidate

/-- Defer a share until its parent is validated; false when it is not kept. -/
def rememberDeferredHistorical
    (backend : Backend)
    (share : Share)
    (candidatePeer : P2pHandshake)
    (evidence : HistoricalEvidence)
    (requiredCapability now : UInt64) :
    NodeM Bool := do
  modify (expireHistoricalState now)
  if candidatePeer.capabilities &&& kP2pCapabilityShareSync = 0 then
    return false
  else
    let id ← orThrow (shareId backend share)
    let node ← get
    match node.historicalParams with
    | none => return false
    | some params =>
        if !node.deferredHistorical.contains id ∧
            node.deferredHistorical.size ≥
              params.difficultyWindowShares.toNat then
          return false
        else
          let joined := joinedRoots node.deferredHistorical
            candidatePeer.nodeId id
          let recoveryRoot := joined.headD id
          let refreshed := refreshJoined node.deferredHistorical
            candidatePeer.nodeId joined recoveryRoot now
          set { node with
            deferredHistorical := refreshed.insert id {
              share, candidatePeer, evidence, requiredCapability
              recoveryRoot, lastProgress := now } }
          return true

/-- The older of two candidates for a retry, the first one among equals. -/
def olderRetryable
    (oldest item : ShareId × RetryableHistoricalCandidate) :
    ShareId × RetryableHistoricalCandidate :=
  if item.2.started < oldest.2.started then item else oldest

/-- The table without its oldest candidate. -/
def dropOldestRetryable
    (retryable : ShareMap RetryableHistoricalCandidate) :
    ShareMap RetryableHistoricalCandidate :=
  match retryable.toList with
  | [] => retryable
  | first :: rest => retryable.erase (rest.foldl olderRetryable first).1

/-- Keep a share to be tried again when the daemon can answer. -/
def rememberRetryableHistorical
    (backend : Backend)
    (share : Share)
    (candidatePeer : P2pHandshake)
    (requiredCapability now : UInt64) :
    NodeM Unit := do
  modify (expireHistoricalState now)
  if requiredCapability ≠ kP2pCapabilityShareGossip ∧
      requiredCapability ≠ kP2pCapabilityShareSync then
    throw (.logicError "unsupported historical retry capability")
  else
    let id ← orThrow (shareId backend share)
    modify fun node =>
      match node.retryableHistorical[id]? with
      | some existing =>
          { node with
            retryableHistorical := node.retryableHistorical.insert id {
              share, candidatePeer, requiredCapability
              started := existing.started } }
      | none =>
          let kept :=
            if node.retryableHistorical.size ≥ kMiningWorkMaxReceived then
              dropOldestRetryable node.retryableHistorical
            else
              node.retryableHistorical
          { node with
            retryableHistorical := kept.insert id {
              share, candidatePeer, requiredCapability, started := now } }

/-- Whether the parent of a share without validated ancestry is ready for it. -/
def parentReady (chain : ShareChain) (share : Share) : Bool :=
  isZeroShareId share.parentId ||
    (chain.find share.parentId).any ConnectedShare.validatedAncestry

/-- The share at an identity that a recovery could validate next. -/
def replayFrontier (chain : ShareChain) (id : ShareId) : Option Share :=
  match chain.find id with
  | none => none
  | some connected =>
      if !connected.validatedAncestry ∧ parentReady chain connected.share then
        some connected.share
      else
        none

end P2pNode

/-- Run a computation on the consensus state of a node. -/
def onNodeConsensus {α : Type} (action : ConsensusM α) : NodeM α :=
  zoom P2pNode.consensus (fun consensus node => { node with consensus }) action

/-- Call local sources of a node. -/
def onCalls {α : Type} (action : QueryM α) : NodeM α :=
  zoom P2pNode.calls (fun calls node => { node with calls }) action

/-- Use the retrieval object of a node. -/
def onRetrieval {α : Type} (action : RetrievalM α) : NodeM α := fun node =>
  match node.workRetrieval with
  | none => .error (.runtimeError "work retrieval is disabled") node
  | some retrieval =>
      match action retrieval with
      | .ok value retrieval =>
          .ok value { node with workRetrieval := some retrieval }
      | .error thrown retrieval =>
          .error thrown { node with workRetrieval := some retrieval }

/-- The archived payload of a key, if this node has it. -/
def readLocalWork
    (environment : NodeEnvironment)
    (key : MiningWorkKey) :
    NodeM (Option (List UInt8)) := do
  let node ← get
  match node.workRetrieval with
  | none => return none
  | some retrieval =>
      onCalls (query fun call => retrieval.readLocal
        (environment.archive call) key)

/-- Cross historical trust for a candidate of a node. -/
def crossHistoricalTrust
    (environment : NodeEnvironment)
    (params : SidechainParameters)
    (candidateShare : Share)
    (evidence : HistoricalEvidence)
    (observations : List P2pMiningAnchor) :
    NodeM HistoricalTrustResult := fun node =>
  zoom (fun node : P2pNode => (⟨node.trustedWork, node.calls⟩ : CrossingState))
    (fun crossed node =>
      { node with
        consensus := { node.consensus with trustedWork := crossed.trustedWork }
        calls := crossed.calls })
    (promoteHistoricalMiningContext environment.backends environment.sources
      node.chain params candidateShare evidence.sourcePeer evidence.proposal
      observations) node

end ZanoP2pool
