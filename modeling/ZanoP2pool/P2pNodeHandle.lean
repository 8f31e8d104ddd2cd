import ZanoP2pool.P2pNode

namespace ZanoP2pool

open Foundation

/-!
# Handling of one message

`P2pNodeProtocol::handle` with the attempts it makes: a candidate share crosses
historical trust, the descendants that waited for it are resumed, and connected
shares without validated ancestry are tried with local work at the end.

The local variables of `handle` that its lambdas write are the `Pass`.
-/

/-- One call of the message handler. -/
structure Message where
  peer : P2pHandshake
  envelope : P2pEnvelope
  now : UInt64
  mode : ProgPowZContextMode
  deriving Repr, DecidableEq

/-- What handling one message has led to so far. -/
structure Pass where
  result : P2pNodeMessageResult := {}
  followup : Option P2pEnvelope := none
  followupPeer : NodeId
  freshTipFollowup : Option P2pEnvelope := none
  relayShare : Option P2pEnvelope := none
  relayTip : Option P2pEnvelope := none
  deriving Repr, DecidableEq

structure Handling where
  node : P2pNode
  pass : Pass

abbrev HandleM := EStateM Exception Handling

/-- Run a computation on the node. -/
def onNode {α : Type} (action : NodeM α) : HandleM α :=
  zoom Handling.node (fun node handling => { handling with node }) action

/-- Run a computation on the chain of the node. -/
def onNodeChain {α : Type} (action : ChainM α) : HandleM α :=
  onNode (onNodeConsensus (onChain action))

def updateNode (update : P2pNode → P2pNode) : HandleM Unit :=
  modify fun handling => { handling with node := update handling.node }

def updatePass (update : Pass → Pass) : HandleM Unit :=
  modify fun handling => { handling with pass := update handling.pass }

def updateResult
    (update : P2pNodeMessageResult → P2pNodeMessageResult) :
    HandleM Unit :=
  updatePass fun pass => { pass with result := update pass.result }

/-- Run a computation if a condition holds. -/
def onlyIf (condition : Bool) (action : HandleM Unit) : HandleM Unit :=
  if condition then action else return ()

/-- Forget the expected payout. -/
def P2pNode.resetExpected (node : P2pNode) : P2pNode :=
  { node with consensus := { node.consensus with expected := {} } }

/-- Ask a peer for a share once the message is handled. -/
def requestShare (requestedId : ShareId) (nodeId : NodeId) : HandleM Unit := do
  let request ← orThrow (makeP2pShareRequestEnvelope requestedId)
  updatePass fun pass =>
    { pass with followup := some request, followupPeer := nodeId }

/-- Ask a peer for a share if one is missing. -/
def requestMissing (missing : Option ShareId) (nodeId : NodeId) :
    HandleM Unit :=
  match missing with
  | none => return ()
  | some requestedId => requestShare requestedId nodeId

/-- Relay the tip of the chain once the message is handled. -/
def relayChainTip : HandleM Unit := do
  let handling ← get
  let announcement ← orThrow (makeP2pTipAnnounceEnvelope
    (p2pTipHintFromChain handling.node.chain))
  updatePass fun pass => { pass with relayTip := some announcement }

/-- A share whose historical work is tried, with the work. -/
structure HistoricalCandidate where
  share : Share
  peer : P2pHandshake
  evidence : HistoricalEvidence
  requiredCapability : UInt64
  deriving Repr, DecidableEq

section Attempt

/-- The diagnostics of an attempt start with its candidate. -/
def noteAttempt
    (share : Share)
    (candidateId : ShareId)
    (result : P2pNodeMessageResult) :
    P2pNodeMessageResult :=
  { result with
    historicalAttemptShareId := some candidateId
    historicalAttemptParentId := some share.parentId
    historicalAttemptZanoHeight := some share.zanoHeight
    historicalAttemptMiningHeaderHash := some share.miningHeaderHash
    historicalAnchorStatus := none
    historicalPayoutStatus := none
    historicalPromotionStatus := none
    historicalProofStatus := none
    historicalPayoutPolicyStatus := none }

/-- The diagnostics of an attempt name what refused it. -/
def noteTrust
    (trust : HistoricalTrustResult)
    (result : P2pNodeMessageResult) :
    P2pNodeMessageResult :=
  let crossed := { result with historicalTrustStatus := some trust.status }
  match trust.status with
  | .promotionRejected =>
      { crossed with
        historicalPromotionStatus := some trust.promotion.status
        historicalProofStatus := some trust.promotion.proofStatus
        historicalPayoutPolicyStatus := some trust.promotion.payoutStatus }
  | .anchorRejected =>
      { crossed with
        historicalAnchorStatus := some trust.initialAnchor.status }
  | .anchorChangedBeforePromotion =>
      { crossed with
        historicalAnchorStatus := some trust.finalAnchor.status }
  | .payoutRejected =>
      { crossed with historicalPayoutStatus := some trust.payout.status }
  | _ => crossed

/-- Only the ancestry of the candidate is missing. -/
def blockedOnParent (share : Share) (trust : HistoricalTrustResult) : Bool :=
  !isZeroShareId share.parentId ∧ trust.status = .payoutRejected ∧
    (trust.payout.status = .parentMissing ∨
      trust.payout.status = .unverifiedAncestry)

/-- The local daemon cannot reconstruct the work yet. -/
def powTemporarilyUnavailable (trust : HistoricalTrustResult) : Bool :=
  (trust.status = .anchorRejected ∧
      trust.initialAnchor.status = .canonicalPowContextUnavailable) ∨
    (trust.status = .anchorChangedBeforePromotion ∧
      trust.finalAnchor.status = .canonicalPowContextUnavailable)

/-- Canonical history has another parent at the height of the candidate. -/
def stableParentMismatch (trust : HistoricalTrustResult) : Bool :=
  trust.status = .anchorRejected ∧
    trust.initialAnchor.status = .parentMismatch

/-- Prune a connected share that canonical history has displaced. -/
def pruneDisplaced (candidateId : ShareId) : HandleM Unit := do
  let handling ← get
  match handling.node.chain.find candidateId with
  | none => return ()
  | some replayed =>
      if replayed.validatedAncestry then
        return ()
      else
        let prunedIds ← onNodeChain
          (ShareChain.pruneConnectedSubtreeIds candidateId)
        updateResult fun result =>
          { result with
            historicalPrunedShareIds :=
              result.historicalPrunedShareIds ++ prunedIds
            historicalPrunedConnectedShares :=
              result.historicalPrunedConnectedShares + prunedIds.length }
        if prunedIds.isEmpty then
          return ()
        else
          updateNode P2pNode.resetExpected
          let pruned ← get
          if isZeroShareId (p2pTipHintFromChain pruned.node.chain).shareId then
            return ()
          else
            relayChainTip

/-- Defer a candidate that waits for its parent; false when it is not kept. -/
def deferBlocked
    (backend : Backend)
    (now : UInt64)
    (candidate : HistoricalCandidate)
    (candidateId : ShareId)
    (parentBlocked : Bool) :
    HandleM Bool := do
  if parentBlocked then
    updateNode fun node =>
      { node with
        retryableHistorical := node.retryableHistorical.erase candidateId }
    onNode (P2pNode.rememberDeferredHistorical backend candidate.share
      candidate.peer candidate.evidence candidate.requiredCapability now)
  else
    return false

/-- What is kept of a candidate whose work is not trusted. -/
def keepRefused
    (backend : Backend)
    (now : UInt64)
    (candidate : HistoricalCandidate)
    (candidateId : ShareId)
    (deferred powUnavailable : Bool) :
    HandleM Unit := do
  let key := P2pNode.workKeyOf candidate.share
  if deferred then
    updateNode (P2pNode.rememberHistoricalEvidence key candidate.evidence now)
    requestShare candidate.share.parentId candidate.peer.nodeId
  else if powUnavailable then
    updateNode (P2pNode.rememberHistoricalEvidence key candidate.evidence now)
    onNode (P2pNode.rememberRetryableHistorical backend candidate.share
      candidate.peer candidate.requiredCapability now)
  else
    updateNode fun node =>
      { node with
        retryableHistorical := node.retryableHistorical.erase candidateId
        historicalEvidence := node.historicalEvidence.erase key }

/-- A candidate whose work did not become trusted. -/
def refuseHistorical
    (backend : Backend)
    (now : UInt64)
    (candidate : HistoricalCandidate)
    (candidateId : ShareId)
    (allowParentDefer : Bool)
    (trust : HistoricalTrustResult) :
    HandleM Unit := do
  onlyIf (stableParentMismatch trust) (pruneDisplaced candidateId)
  let deferred ← deferBlocked backend now candidate candidateId
    (allowParentDefer && blockedOnParent candidate.share trust)
  keepRefused backend now candidate candidateId deferred
    (powTemporarilyUnavailable trust)

/-- The share status that a revalidation is reported as. -/
def revalidatedShareStatus :
    RevalidateShareStatus → P2pShareReceiveStatus
  | .validated => .connected
  | .alreadyValidated => .duplicate
  | .parentUnvalidated => .rejected
  | .notConnected => .rejected
  | .rejected => .rejected

/-- Validate a connected share in place with its trusted work. -/
def revalidateReplayed
    (backend : Backend)
    (message : Message)
    (share : Share)
    (candidateId : ShareId) :
    HandleM (Option ShareId) := do
  let handling ← get
  match handling.node.trustedWork.find share.zanoHeight
      share.miningHeaderHash share.parentId with
  | none =>
      throw (.logicError "trusted historical replay work was not registered")
  | some trusted =>
      let revalidated ← onNodeChain (ShareChain.revalidateConnectedShare
        backend candidateId trusted message.now message.mode)
      updateResult fun result =>
        { result with
          shareStatus := revalidatedShareStatus revalidated.status }
      match revalidated.status with
      | .validated =>
          updateResult fun result =>
            { result with historicalShareConnected := true }
          return some candidateId
      | .alreadyValidated => return none
      | .parentUnvalidated =>
          throw (.logicError
            "historical replay parent lost validated ancestry")
      | .notConnected =>
          throw (.logicError
            "historical replay disappeared during revalidation")
      | .rejected => return none

/-- What the pass reports of a received historical share. -/
def reportReceived
    (backend : Backend)
    (candidate : HistoricalCandidate)
    (retried : P2pShareReceiveResult) :
    HandleM (Option ShareId) := do
  updateResult fun result => { result with shareStatus := retried.status }
  onlyIf retried.chainResult.bestTipChanged
    (updateNode P2pNode.resetExpected)
  requestMissing retried.missingParentId candidate.peer.nodeId
  onlyIf (retried.status = .connected ∨ retried.status = .orphan)
    (updateResult fun result =>
      { result with
        historicalAdmittedShares :=
          result.historicalAdmittedShares ++ [candidate.share] })
  if retried.status = .connected then
    updateResult fun result => { result with historicalShareConnected := true }
    let announcement ← orThrow
      (makeP2pShareAnnounceEnvelope backend candidate.share)
    updatePass fun pass => { pass with relayShare := some announcement }
    relayChainTip
    let id ← orThrow (shareId backend candidate.share)
    return some id
  else
    return none

/-- Admit a share with its trusted work. -/
def receiveHistorical
    (backend : Backend)
    (message : Message)
    (candidate : HistoricalCandidate) :
    HandleM (Option ShareId) := do
  let handling ← get
  let retried ← onNodeChain (receiveShare backend handling.node.trustedWork
    candidate.peer.capabilities candidate.requiredCapability candidate.share
    message.now message.mode)
  reportReceived backend candidate retried

/-- A candidate whose work became trusted. -/
def admitHistorical
    (backend : Backend)
    (message : Message)
    (candidate : HistoricalCandidate)
    (candidateId : ShareId) :
    HandleM (Option ShareId) := do
  updateNode fun node =>
    { node with
      retryableHistorical := node.retryableHistorical.erase candidateId }
  updateNode (P2pNode.rememberHistoricalEvidence
    (P2pNode.workKeyOf candidate.share) candidate.evidence message.now)
  updateResult fun result =>
    { result with
      historicalShare := some candidate.share
      historicalShareRetried := true }
  let handling ← get
  if (handling.node.chain.find candidateId).any fun replayed =>
      !replayed.validatedAncestry then
    revalidateReplayed backend message candidate.share candidateId
  else
    receiveHistorical backend message candidate

/-- Let a candidate cross historical trust; its identity when it connected. -/
def attemptHistorical
    (environment : NodeEnvironment)
    (message : Message)
    (candidate : HistoricalCandidate)
    (allowParentDefer : Bool) :
    HandleM (Option ShareId) := do
  let backend := environment.backends.hashing
  let handling ← get
  match handling.node.historicalParams with
  | none => return none
  | some params =>
      let candidateId ← orThrow (shareId backend candidate.share)
      updateResult (noteAttempt candidate.share candidateId)
      let observations ← onNode (onCalls (query fun call =>
        environment.sources.observations call candidate.evidence.proposal))
      let trust ← onNode (crossHistoricalTrust environment params
        candidate.share candidate.evidence observations)
      updateResult (noteTrust trust)
      if trust.status ≠ .trusted then
        refuseHistorical backend message.now candidate candidateId
          allowParentDefer trust
        return none
      else
        admitHistorical backend message candidate candidateId

end Attempt

section Resume

/-- The candidate of a deferred share. -/
def DeferredHistoricalCandidate.candidate
    (deferred : DeferredHistoricalCandidate) :
    HistoricalCandidate where
  share := deferred.share
  peer := deferred.candidatePeer
  evidence := deferred.evidence
  requiredCapability := deferred.requiredCapability

/-- The deferred shares that wait for a parent. -/
def P2pNode.waitingFor (node : P2pNode) (parentId : ShareId) : List ShareId :=
  (node.deferredHistorical.toList.filter fun item =>
    item.2.share.parentId = parentId).map Prod.fst

/-- Try deferred shares once more; the identities of those that connected. -/
def resumeReady
    (environment : NodeEnvironment)
    (message : Message) :
    List ShareId → HandleM (List ShareId)
  | [] => return []
  | candidateId :: rest => do
      let handling ← get
      match handling.node.deferredHistorical[candidateId]? with
      | none => resumeReady environment message rest
      | some deferred =>
          updateNode fun node =>
            { node with
              deferredHistorical := node.deferredHistorical.erase candidateId }
          let connected ← attemptHistorical environment message
            deferred.candidate false
          let later ← resumeReady environment message rest
          return connected.toList ++ later

/--
Resume the descendants of queued parents.  Every identity added to the queue was
taken out of the deferred table, so the size of the table bounds the rounds.
-/
def resumeQueue
    (environment : NodeEnvironment)
    (message : Message) :
    Nat → List ShareId → HandleM Unit
  | 0, _ => return ()
  | _ + 1, [] => return ()
  | rounds + 1, parentId :: queue => do
      let handling ← get
      let connected ← resumeReady environment message
        (handling.node.waitingFor parentId)
      resumeQueue environment message rounds (queue ++ connected)

def resumeDeferredDescendants
    (environment : NodeEnvironment)
    (message : Message)
    (connectedParentId : ShareId) :
    HandleM Unit := do
  let handling ← get
  resumeQueue environment message
    (handling.node.deferredHistorical.size + 1) [connectedParentId]

/-- An attempt, followed by what waited for its share. -/
def attemptThenResume
    (environment : NodeEnvironment)
    (message : Message)
    (candidate : HistoricalCandidate) :
    HandleM Unit := do
  match ← attemptHistorical environment message candidate true with
  | none => return ()
  | some connected =>
      resumeDeferredDescendants environment message connected

/-- Whether the result of local work makes a request to the peer needless. -/
def keepsLocalResult (result : P2pNodeMessageResult) : Bool :=
  result.historicalTrustStatus = some .trusted ∨
    (result.historicalTrustStatus = some .payoutRejected ∧
      (result.historicalPayoutStatus = some .parentMissing ∨
        result.historicalPayoutStatus = some .unverifiedAncestry)) ∨
    ((result.historicalTrustStatus = some .anchorRejected ∨
        result.historicalTrustStatus = some .anchorChangedBeforePromotion) ∧
      result.historicalAnchorStatus = some .canonicalPowContextUnavailable)

/-- Try the work of this node's own archive; true when it settles the share. -/
def attemptLocalHistorical
    (environment : NodeEnvironment)
    (message : Message)
    (share : Share)
    (requiredCapability : UInt64) :
    HandleM Bool := do
  let handling ← get
  if handling.node.workRetrieval.isNone ∨
      handling.node.historicalParams.isNone then
    return false
  else
    match ← onNode (readLocalWork environment
        (P2pNode.workKeyOf share)) with
    | none => return false
    | some bytes =>
        let proposal ← orThrow (deserializeP2pMiningContextPayload
          environment.backends.json bytes)
        let prunedBefore :=
          handling.pass.result.historicalPrunedConnectedShares
        attemptThenResume environment message {
          share, peer := message.peer, requiredCapability
          evidence := {
            proposal, sourcePeer := message.peer, received := message.now } }
        let attempted ← get
        return keepsLocalResult attempted.pass.result ∨
          attempted.pass.result.historicalPrunedConnectedShares >
            prunedBefore

end Resume

section Handlers

variable (environment : NodeEnvironment) (message : Message)

/-- Ask the peer for the work of a share and remember that it waits. -/
def retrieveWork (share : Share) (requiredCapability : UInt64) :
    HandleM Unit := do
  match ← onNode (onRetrieval (P2pWorkRetrieval.begin message.peer
      (P2pNode.workKeyOf share) message.now)) with
  | none => return ()
  | some request =>
      updatePass fun pass => { pass with followup := some request }
      let handling ← get
      onlyIf handling.node.historicalParams.isSome
        (updateNode (P2pNode.rememberPendingHistorical message.peer share
          requiredCapability message.now))

/-- The retained evidence for a share, if the node can use it. -/
def usableEvidence (share : Share) (node : P2pNode) :
    Option HistoricalEvidence :=
  if node.historicalParams.isSome then
    node.historicalEvidence[P2pNode.workKeyOf share]?
  else
    none

/-- Ask the sender of the message for a share if one is missing. -/
def followMissing (missing : Option ShareId) : HandleM Unit :=
  match missing with
  | none => return ()
  | some requestedId => do
      let request ← orThrow (makeP2pShareRequestEnvelope requestedId)
      updatePass fun pass => { pass with followup := some request }

/-- Relay a connected share and resume what waited for it. -/
def relayConnected
    (id : ShareId)
    (relayed : Except Exception P2pEnvelope) :
    HandleM Unit := do
  let announcement ← orThrow relayed
  updatePass fun pass => { pass with relayShare := some announcement }
  relayChainTip
  resumeDeferredDescendants environment message id

/-- What follows from the outcome of a received share. -/
def afterReceive
    (receive : P2pShareReceiveResult)
    (relayed : Except Exception P2pEnvelope) :
    HandleM Unit := do
  onlyIf receive.chainResult.bestTipChanged
    (updateNode P2pNode.resetExpected)
  followMissing receive.missingParentId
  onlyIf (receive.status = .connected)
    (relayConnected environment message receive.chainResult.id relayed)

/-- Try the work of an announced share. -/
def recoverAnnounced : HandleM Unit := do
  let share ← orThrow (parseP2pShareAnnounceEnvelope
    environment.backends.hashing message.envelope)
  updateNode (P2pNode.expireHistoricalState message.now)
  let live ← get
  match usableEvidence share live.node with
  | some evidence =>
      attemptThenResume environment message {
        share, peer := message.peer, evidence
        requiredCapability := kP2pCapabilityShareGossip }
  | none => retrieveWork message share kP2pCapabilityShareGossip

def handleShareAnnounce : HandleM Unit := do
  let backend := environment.backends.hashing
  let handling ← get
  let receive ← onNodeChain (receiveP2pShareAnnounce backend
    handling.node.trustedWork message.peer message.envelope message.now
    message.mode)
  updateResult fun result =>
    { result with status := .shareProcessed, shareStatus := receive.status }
  onlyIf (receive.status = .unknownWorkContext ∧
      handling.node.workRetrieval.isSome)
    (recoverAnnounced environment message)
  afterReceive environment message receive (.ok message.envelope)

/-- Announce a tip to the sender of the message. -/
def announceTip (tip : P2pTipHint) : HandleM Unit := do
  let announcement ← orThrow (makeP2pTipAnnounceEnvelope tip)
  updatePass fun pass => { pass with freshTipFollowup := some announcement }

def handleShareRequest : HandleM Unit := do
  let handling ← get
  let answer ← orThrow (answerP2pShareRequest environment.backends.hashing
    message.peer message.envelope handling.node.chain)
  updatePass fun pass => { pass with followup := some answer }
  let response ← orThrow
    (parseP2pShareResponseEnvelope environment.backends.hashing answer)
  let currentTip := p2pTipHintFromChain handling.node.chain
  onlyIf (response.code = .notFound ∧ !isZeroShareId currentTip.shareId)
    (announceTip currentTip)
  updateResult fun result => { result with status := .shareRequestAnswered }

/-- Try the work of a share that a response carried. -/
def recoverResponded (share : Share) : HandleM Unit := do
  updateNode (P2pNode.expireHistoricalState message.now)
  let live ← get
  match usableEvidence share live.node with
  | some evidence =>
      attemptThenResume environment message {
        share, peer := message.peer, evidence
        requiredCapability := kP2pCapabilityShareSync }
  | none =>
      let settled ← attemptLocalHistorical environment message share
        kP2pCapabilityShareSync
      onlyIf (!settled) (retrieveWork message share kP2pCapabilityShareSync)

def handleShareResponse : HandleM Unit := do
  let backend := environment.backends.hashing
  let handling ← get
  let sync ← onNodeChain (receiveP2pShareResponse backend
    handling.node.trustedWork message.peer message.envelope message.now
    message.mode)
  updateResult fun result =>
    { result with status := .shareResponseProcessed, syncStatus := sync.status }
  match sync.shareResult with
  | none => return ()
  | some receive =>
      updateResult fun result => { result with shareStatus := receive.status }
      let response ← orThrow
        (parseP2pShareResponseEnvelope backend message.envelope)
      match response.share with
      | none => return ()
      | some share =>
          onlyIf (receive.status = .unknownWorkContext ∧
              handling.node.workRetrieval.isSome)
            (recoverResponded environment message share)
          afterReceive environment message receive
            (makeP2pShareAnnounceEnvelope backend share)

/-- Whether the parent of a deferred share still has to come from a peer. -/
def unresolvedFrontier
    (node : P2pNode)
    (peerId : NodeId)
    (deferred : DeferredHistoricalCandidate) :
    Bool :=
  let parentId := deferred.share.parentId
  !isZeroShareId parentId &&
    !(node.deferredHistorical[parentId]?.any fun parent =>
      parent.candidatePeer.nodeId = peerId) &&
    !(node.chain.find parentId).any ConnectedShare.validatedAncestry

/-- The first of the best elements of a list. -/
def selectFirst
    {α : Type}
    (better : α → α → Bool)
    (items : List α) :
    Option α :=
  items.foldl
    (fun selected item =>
      match selected with
      | none => some item
      | some best => if better item best then some item else selected) none

/-- The deferred shares of a peer whose parent has to come from it. -/
def frontiersOf (node : P2pNode) (peerId : NodeId) :
    List DeferredHistoricalCandidate :=
  (node.deferredHistorical.toList.map Prod.snd).filter fun deferred =>
    deferred.candidatePeer.nodeId = peerId ∧
      unresolvedFrontier node peerId deferred

/-- The lowest frontier of one recovery walk. -/
def selectFrontierForRoot
    (node : P2pNode)
    (peerId : NodeId)
    (recoveryRoot : ShareId) :
    Option DeferredHistoricalCandidate :=
  selectFirst
    (fun deferred selected =>
      decide (deferred.share.shareHeight < selected.share.shareHeight))
    ((frontiersOf node peerId).filter fun deferred =>
      deferred.recoveryRoot = recoveryRoot)

/-- The frontier that has waited longest, the lowest one among these. -/
def selectOldestFrontier (node : P2pNode) (peerId : NodeId) :
    Option DeferredHistoricalCandidate :=
  selectFirst
    (fun deferred selected =>
      decide (deferred.lastProgress < selected.lastProgress ∨
        (deferred.lastProgress = selected.lastProgress ∧
          deferred.share.shareHeight < selected.share.shareHeight)))
    (frontiersOf node peerId)

/-- Select a frontier and keep to its walk until it is resolved. -/
def selectFrontier (peer : P2pHandshake) (node : P2pNode) :
    Option DeferredHistoricalCandidate × P2pNode :=
  let peerId := peer.nodeId
  if node.workRetrieval.isNone ∨ node.historicalParams.isNone ∨
      peer.capabilities &&& kP2pCapabilityShareSync = 0 then
    (none, node)
  else
    let sticky := node.activeDeferredRecoveryRoot[peerId]?.bind
      (selectFrontierForRoot node peerId)
    match sticky with
    | some deferred => (some deferred, node)
    | none =>
        let roots := node.activeDeferredRecoveryRoot.erase peerId
        match selectOldestFrontier node peerId with
        | none => (none, { node with activeDeferredRecoveryRoot := roots })
        | some deferred =>
            (some deferred, { node with
              activeDeferredRecoveryRoot :=
                roots.insert peerId deferred.recoveryRoot })

def handleTipAnnounce : HandleM Unit := do
  let hint ← orThrow (parseP2pTipAnnounceEnvelope message.envelope)
  let handling ← get
  let decision := planP2pTipSync message.peer hint handling.node.chain
  updateResult fun result =>
    { result with status := .tipProcessed, tipStatus := decision.status }
  updateNode (P2pNode.expireHistoricalState message.now)
  let live ← get
  let selected := selectFrontier message.peer live.node
  updateNode fun _ => selected.2
  match selected.1 with
  | some deferred =>
      requestShare deferred.share.parentId message.peer.nodeId
  | none =>
      match decision.requestedId with
      | some requestedId =>
          let request ← orThrow (makeP2pShareRequestEnvelope requestedId)
          updatePass fun pass => { pass with followup := some request }
      | none =>
          if decision.status = .knownConnectedTip ∧
              live.node.workRetrieval.isSome ∧
              live.node.historicalParams.isSome ∧
              (live.node.chain.find hint.shareId).any fun connected =>
                !connected.validatedAncestry then
            requestShare hint.shareId message.peer.nodeId

/-- The payout that an announced proposal is checked against. -/
def announcedExpectation (expected : PayoutExpectation) :
    Option (ShareId × ExpectedPayout) :=
  match expected.parentId, expected.plan, expected.payout with
  | some parentId, some plan, _ => some (parentId, .plan plan)
  | some parentId, none, some payout => some (parentId, .address payout)
  | _, _, _ => none

/-- Run a computation on the registry of the node. -/
def onTrustedWork {α : Type} (action : RegistryM α) : HandleM α :=
  onNode (zoom P2pNode.trustedWork
    (fun trustedWork node =>
      { node with consensus := { node.consensus with trustedWork } }) action)

def handleMiningContextAnnounce : HandleM Unit := do
  let handling ← get
  match handling.node.localMiningAnchor,
      announcedExpectation handling.node.consensus.expected with
  | some anchor, some (parentId, expected) =>
      let trust ← onTrustedWork (promoteP2pMiningContext environment.backends
        message.peer message.envelope anchor parentId expected)
      updateResult fun result =>
        { result with
          status := .miningContextProcessed
          miningContextStatus := trust.status
          miningContextRegistryInserted := trust.registryInserted }
  | _, _ =>
      updateResult fun result =>
        { result with status := .miningContextDeferred }

def handleMiningWorkRequest : HandleM Unit := do
  let handling ← get
  match handling.node.workRetrieval with
  | none => throw (.runtimeError "work retrieval is disabled")
  | some retrieval =>
      let answer ← onNode (onCalls (query fun call => retrieval.answer
        (environment.archive call) message.peer message.envelope))
      updatePass fun pass => { pass with followup := some answer }
      updateResult fun result =>
        { result with status := .miningWorkRequestAnswered }

/-- Forget that a share waits for work from the peer. -/
def forgetPending (key : MiningWorkKey) (handling : Handling) : Handling :=
  { handling with
    node := { handling.node with
      pendingHistorical := handling.node.pendingHistorical.erase
        { nodeId := message.peer.nodeId, key } } }

/-- Receive a part of the requested work; a failure ends the waiting. -/
def receiveWork (key : MiningWorkKey) : HandleM MiningWorkReceiveResult :=
  fun handling =>
    match onNode (onRetrieval (P2pWorkRetrieval.receive
        environment.backends.hashing environment.backends.json message.peer
        message.envelope message.now)) handling with
    | .ok received next => .ok received next
    | .error thrown next => .error thrown (forgetPending message key next)

/-- Try the share that waited for completed work. -/
def attemptRetrieved (key : MiningWorkKey) : HandleM Unit := do
  updateNode (P2pNode.expireHistoricalState message.now)
  let live ← get
  match live.node.historicalParams, live.node.pendingHistorical[
      ({ nodeId := message.peer.nodeId, key } : PendingKey)]? with
  | some _, some pending =>
      match ← onNode (onRetrieval (P2pWorkRetrieval.takeUntrusted key)) with
      | none =>
          throw (.runtimeError
            "completed historical work is missing from untrusted cache")
      | some bytes =>
          let proposal ← orThrow (deserializeP2pMiningContextPayload
            environment.backends.json bytes)
          modify (forgetPending message key)
          attemptThenResume environment message {
            share := pending.share, peer := message.peer
            evidence := {
              proposal, sourcePeer := message.peer, received := message.now }
            requiredCapability := pending.requiredCapability }
  | _, _ => return ()

def handleMiningWorkResponse : HandleM Unit := do
  let handling ← get
  if handling.node.workRetrieval.isNone then
    throw (.runtimeError "work retrieval is disabled")
  else
    let response ← orThrow (parseMiningWorkResponse message.envelope)
    let key := response.request.key
    let received ← receiveWork environment message key
    updatePass fun pass => { pass with followup := received.followup }
    updateResult fun result =>
      { result with
        status := .miningWorkResponseProcessed
        untrustedWorkReceived := received.receivedId }
    if response.totalSize = 0 then
      modify (forgetPending message key)
    else if received.receivedId.isNone then
      return ()
    else
      attemptRetrieved environment message key

def handleEnvelope : HandleM Unit :=
  match message.envelope.type with
  | .shareAnnounce => handleShareAnnounce environment message
  | .shareRequest => handleShareRequest environment message
  | .shareResponse => handleShareResponse environment message
  | .tipAnnounce => handleTipAnnounce message
  | .miningContextAnnounce => handleMiningContextAnnounce environment message
  | .miningWorkRequest => handleMiningWorkRequest environment message
  | .miningWorkResponse => handleMiningWorkResponse environment message
  | .handshake =>
      updateResult fun result => { result with status := .unexpectedHandshake }

end Handlers

section Scheduling

variable (environment : NodeEnvironment) (message : Message)

/-- Mark that a frontier was tried with the peer. -/
def markFrontier (id : ShareId) : HandleM Unit :=
  updateNode fun node =>
    { node with
      replayFrontierAttempts := node.replayFrontierAttempts.insert
        { nodeId := message.peer.nodeId, shareId := id } message.now }

/-- A share without validated ancestry that was not tried with a peer. -/
def P2pNode.untriedFrontier
    (node : P2pNode)
    (peerId : NodeId)
    (id : ShareId) :
    Option Share :=
  if node.replayFrontierAttempts.contains
      ({ nodeId := peerId, shareId := id } : ReplayFrontierKey) then
    none
  else
    P2pNode.replayFrontier node.chain id

/-- Ask the peer for the work of a frontier; the scan ends here. -/
def requestFrontierWork (id : ShareId) (share : Share) : HandleM Unit := do
  match ← onNode (onRetrieval (P2pWorkRetrieval.begin message.peer
      (P2pNode.workKeyOf share) message.now)) with
  | none => return ()
  | some request =>
      markFrontier message id
      updatePass fun pass =>
        { pass with
          followup := some request, followupPeer := message.peer.nodeId }
      updateNode (P2pNode.rememberPendingHistorical message.peer share
        kP2pCapabilityShareSync message.now)

/--
Try the frontiers among the listed shares; whether one of the tried ones was
connected.
-/
def scanFrontiers : Nat → Bool → List ShareId → HandleM Bool
  | _, connected, [] => return connected
  | 0, connected, _ => return connected
  | budget + 1, connected, id :: rest => do
      let handling ← get
      if handling.pass.followup.isSome then
        return connected
      else
        match handling.node.untriedFrontier message.peer.nodeId id with
        | none => scanFrontiers (budget + 1) connected rest
        | some share =>
            let handled ← attemptLocalHistorical environment message share
              kP2pCapabilityShareSync
            if handled then
              markFrontier message id
              let attempted ← get
              scanFrontiers budget
                (connected ||
                  attempted.pass.result.historicalShareConnected) rest
            else
              requestFrontierWork message id share
              return connected

/-- The outer result, with what the scheduling pruned and connected. -/
def restoreOuterResult
    (outer inner : P2pNodeMessageResult)
    (connected : Bool) :
    Except Exception P2pNodeMessageResult :=
  if inner.historicalPrunedConnectedShares <
        outer.historicalPrunedConnectedShares ∨
      inner.historicalPrunedShareIds.length <
        outer.historicalPrunedShareIds.length then
    throw (.logicError "historical prune aggregation regressed")
  else
    let prunedCount := inner.historicalPrunedConnectedShares -
      outer.historicalPrunedConnectedShares
    let prunedIds := inner.historicalPrunedShareIds.drop
      outer.historicalPrunedShareIds.length
    if prunedCount ≠ prunedIds.length then
      throw (.logicError "historical prune ID/count mismatch")
    else
      return { outer with
        historicalShareConnected := outer.historicalShareConnected || connected
        historicalPrunedShareIds :=
          outer.historicalPrunedShareIds ++ prunedIds
        historicalPrunedConnectedShares :=
          outer.historicalPrunedConnectedShares + prunedCount }

/-- Advance the frontiers of replayed history with this peer. -/
def advanceFrontiers : HandleM Bool := do
  updateNode (P2pNode.expireHistoricalState message.now)
  let live ← get
  if live.node.historicalParams.isNone then
    return false
  else
    updateResult fun result => { result with historicalShareConnected := false }
    let connected ← scanFrontiers environment message kMiningWorkMaxPending
      false live.node.chain.pruneOrder
    let scanned ← get
    return connected || scanned.pass.result.historicalShareConnected

/-- The scheduling that follows a message without a required reply. -/
def scheduleReplayFrontiers : HandleM Unit := do
  let handling ← get
  if handling.pass.followup.isNone ∧ handling.node.workRetrieval.isSome ∧
      message.peer.capabilities &&& kP2pCapabilityShareSync ≠ 0 then
    let connected ← advanceFrontiers environment message
    let advanced ← get
    let restored ← orThrow (restoreOuterResult handling.pass.result
      advanced.pass.result connected)
    updateResult fun _ => restored

end Scheduling

def kP2pProtocolViolationPenalty : UInt32 := 25

def p2pNodeMessagePenalty (result : P2pNodeMessageResult) : UInt32 :=
  let violated : Bool :=
    match result.status with
    | .shareProcessed => result.shareStatus = .capabilityMissing
    | .shareRequestAnswered => false
    | .miningWorkRequestAnswered => false
    | .miningWorkResponseProcessed => false
    | .shareResponseProcessed =>
        result.syncStatus = .capabilityMissing ∨
          (result.syncStatus = .shareProcessed ∧
            result.shareStatus = .capabilityMissing)
    | .tipProcessed =>
        result.tipStatus = .heightMismatch ∨
          result.tipStatus = .capabilityMissing
    | .miningContextProcessed =>
        result.miningContextStatus = .capabilityMissing ∨
          result.miningContextStatus = .proofsRejected
    | .miningContextDeferred => false
    | .unexpectedHandshake => true
  if violated then kP2pProtocolViolationPenalty else 0

section Transport

variable (environment : NodeEnvironment) (message : Message)

/-- Hand an action to the transport. -/
def act (action : RuntimeAction) : HandleM Unit :=
  updateNode fun node => { node with actions := node.actions ++ [action] }

/-- Send an envelope; whether the transport took it. -/
def sendTo (nodeId : NodeId) (envelope : P2pEnvelope) : HandleM Bool := do
  act (.sendTo nodeId envelope)
  onNode (onCalls (query fun call =>
    .ok (environment.delivers call nodeId envelope)))

/-- Send the reply of a message, if it has one. -/
def sendFollowup (nodeId : NodeId) (followup : Option P2pEnvelope) :
    HandleM Unit :=
  match followup with
  | none => return ()
  | some envelope => do
      let sent ← sendTo environment nodeId envelope
      updateResult fun result => { result with sentFollowup := sent }

/-- Send the tip that goes with a reply, if there is one. -/
def sendFreshTip (followup : Option P2pEnvelope) : HandleM Unit :=
  match followup with
  | none => return ()
  | some announcement => do
      let _ ← sendTo environment message.peer.nodeId announcement

/-- Relay an envelope to the other peers, if there is one. -/
def relayToOthers
    (relayed : Option P2pEnvelope)
    (note : P2pNodeMessageResult → P2pNodeMessageResult) :
    HandleM Unit :=
  match relayed with
  | none => return ()
  | some envelope => do
      act (.broadcastExcept message.peer.nodeId envelope)
      updateResult note

/-- Penalize, reply and relay. -/
def finishMessage : HandleM P2pNodeMessageResult := do
  let handling ← get
  let pass := handling.pass
  let penalty := p2pNodeMessagePenalty pass.result
  onlyIf (penalty ≠ 0)
    (act (.reportPeerMisbehavior message.peer.nodeId penalty))
  sendFollowup environment pass.followupPeer pass.followup
  sendFreshTip environment message pass.freshTipFollowup
  relayToOthers message pass.relayShare fun result =>
    { result with relayedShare := true }
  relayToOthers message pass.relayTip fun result =>
    { result with relayedTip := true }
  let finished ← get
  return finished.pass.result

end Transport

/-- Handle one message with the local variables of the call. -/
def handleMessage
    (environment : NodeEnvironment)
    (message : Message) :
    HandleM P2pNodeMessageResult := do
  handleEnvelope environment message
  scheduleReplayFrontiers environment message
  finishMessage environment message

def P2pNode.handle
    (environment : NodeEnvironment)
    (message : Message) :
    NodeM P2pNodeMessageResult := fun node =>
  match handleMessage environment message
      { node, pass := { followupPeer := message.peer.nodeId } } with
  | .ok result handling => .ok result handling.node
  | .error thrown handling => .error thrown handling.node

end ZanoP2pool
