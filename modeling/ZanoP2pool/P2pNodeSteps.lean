import ZanoP2pool.P2pNodeHandle
import ZanoP2pool.ShareChainPruning

namespace ZanoP2pool

open Foundation

/-!
# Steps of the handler

Everything that handling one message does to a node is a sequence of the steps
below, each one update of the source, so that an invariant of the handler is an
invariant of the steps.  Pruning and the reset of the expected payout that follows
it are one step.
-/

/-- What a step did to the chain or the registry. -/
inductive NodeEvent where
  | kept
  | authorized
  | received (share : Share)
  | revalidated (id : ShareId)
  | pruned (prunedIds : List ShareId)
  deriving Repr, DecidableEq

namespace NodeEvent

def prunedIds : NodeEvent → List ShareId
  | .pruned ids => ids
  | _ => []

end NodeEvent

/-- The node with a chain in place of its own. -/
def P2pNode.withChain (node : P2pNode) (chain : ShareChain) : P2pNode :=
  { node with consensus := { node.consensus with chain } }

/-- The node with a registry in place of its own. -/
def P2pNode.withTrustedWork
    (node : P2pNode)
    (trustedWork : P2pTrustedWorkRegistry) :
    P2pNode :=
  { node with consensus := { node.consensus with trustedWork } }

/-- The node after a prune, without an expected payout if a share went. -/
def P2pNode.afterPrune
    (node : P2pNode)
    (chain : ShareChain)
    (prunedIds : List ShareId) :
    P2pNode :=
  if prunedIds.isEmpty then node.withChain chain
  else (node.withChain chain).resetExpected

/-- One step of handling a message. -/
inductive NodeStep
    (environment : NodeEnvironment)
    (message : Message) :
    P2pNode → NodeEvent → P2pNode → Prop where
  | expired (node : P2pNode) :
      NodeStep environment message node .kept
        (node.expireHistoricalState message.now)
  | rememberedPending
      (node : P2pNode)
      (share : Share)
      (requiredCapability : UInt64) :
      NodeStep environment message node .kept
        (node.rememberPendingHistorical message.peer share requiredCapability
          message.now)
  | forgotPending (node : P2pNode) (key : PendingKey) :
      NodeStep environment message node .kept
        { node with pendingHistorical := node.pendingHistorical.erase key }
  | rememberedEvidence
      (node : P2pNode)
      (key : MiningWorkKey)
      (evidence : HistoricalEvidence) :
      NodeStep environment message node .kept
        (node.rememberHistoricalEvidence key evidence message.now)
  | forgotEvidence (node : P2pNode) (key : MiningWorkKey) :
      NodeStep environment message node .kept
        { node with historicalEvidence := node.historicalEvidence.erase key }
  | rememberedRetryable
      (node : P2pNode)
      (candidate : HistoricalCandidate) :
      NodeStep environment message node .kept
        (finalState (P2pNode.rememberRetryableHistorical
          environment.backends.hashing candidate.share candidate.peer
          candidate.requiredCapability message.now node))
  | forgotRetryable (node : P2pNode) (id : ShareId) :
      NodeStep environment message node .kept
        { node with retryableHistorical := node.retryableHistorical.erase id }
  | deferred (node : P2pNode) (candidate : HistoricalCandidate) :
      NodeStep environment message node .kept
        (finalState (P2pNode.rememberDeferredHistorical
          environment.backends.hashing candidate.share candidate.peer
          candidate.evidence candidate.requiredCapability message.now node))
  | undeferred (node : P2pNode) (id : ShareId) :
      NodeStep environment message node .kept
        { node with deferredHistorical := node.deferredHistorical.erase id }
  -- retrieval, scheduling marks, local calls and the transport
  | aside
      (node : P2pNode)
      (workRetrieval : Option P2pWorkRetrieval)
      (activeDeferredRecoveryRoot : Std.ExtTreeMap NodeId ShareId)
      (replayFrontierAttempts : Std.ExtTreeMap ReplayFrontierKey UInt64)
      (calls : Nat)
      (actions : List RuntimeAction)
      (enabled : workRetrieval.isSome = node.workRetrieval.isSome) :
      NodeStep environment message node .kept
        { node with
          workRetrieval, activeDeferredRecoveryRoot, replayFrontierAttempts
          calls, actions }
  | announced
      (node : P2pNode)
      (anchor : P2pMiningAnchor)
      (parentId : ShareId)
      (expected : ExpectedPayout)
      (installed : node.localMiningAnchor = some anchor)
      (expects :
        announcedExpectation node.consensus.expected =
          some (parentId, expected)) :
      NodeStep environment message node .authorized
        (node.withTrustedWork (finalState (promoteP2pMiningContext
          environment.backends message.peer message.envelope anchor parentId
          expected node.trustedWork)))
  | crossed
      (node : P2pNode)
      (params : SidechainParameters)
      (candidate : HistoricalCandidate)
      (observations : List P2pMiningAnchor)
      (configured : node.historicalParams = some params) :
      NodeStep environment message node .authorized
        (finalState (crossHistoricalTrust environment params candidate.share
          candidate.evidence observations node))
  | received
      (node : P2pNode)
      (peer : P2pHandshake)
      (share : Share)
      (requiredCapability : UInt64) :
      NodeStep environment message node (.received share)
        (node.withChain (finalState (receiveShare
          environment.backends.hashing node.trustedWork peer.capabilities
          requiredCapability share message.now message.mode node.chain)))
  | revalidated
      (node : P2pNode)
      (share : Share)
      (id : ShareId)
      (trusted : ShareWorkContext)
      (identified : shareId environment.backends.hashing share = .ok id)
      (registered :
        node.trustedWork.find share.zanoHeight share.miningHeaderHash
          share.parentId = some trusted) :
      NodeStep environment message node (.revalidated id)
        (node.withChain (finalState (ShareChain.revalidateConnectedShare
          environment.backends.hashing id trusted message.now message.mode
          node.chain)))
  | pruned
      (node : P2pNode)
      (root : ShareId)
      (replayed : ConnectedShare)
      (chain : ShareChain)
      (prunedIds : List ShareId)
      (found : node.chain.find root = some replayed)
      (unvalidated : replayed.validatedAncestry = false)
      (ran :
        ShareChain.pruneConnectedSubtreeIds root node.chain =
          .ok prunedIds chain) :
      NodeStep environment message node (.pruned prunedIds)
        (node.afterPrune chain prunedIds)
  | forgotExpected (node : P2pNode) :
      NodeStep environment message node .kept node.resetExpected

/-- A sequence of steps with its events. -/
inductive NodeTrace
    (environment : NodeEnvironment)
    (message : Message) :
    P2pNode → List NodeEvent → P2pNode → Prop where
  | refl (node : P2pNode) : NodeTrace environment message node [] node
  | tail
      {first middle last : P2pNode}
      {events : List NodeEvent}
      {event : NodeEvent}
      (before : NodeTrace environment message first events middle)
      (step : NodeStep environment message middle event last) :
      NodeTrace environment message first (events ++ [event]) last

namespace NodeTrace

variable {environment : NodeEnvironment} {message : Message}

theorem single
    {first last : P2pNode}
    {event : NodeEvent}
    (step : NodeStep environment message first event last) :
    NodeTrace environment message first [event] last :=
  .tail (.refl first) step

theorem append
    {first middle last : P2pNode}
    {earlier later : List NodeEvent}
    (before : NodeTrace environment message first earlier middle)
    (after : NodeTrace environment message middle later last) :
    NodeTrace environment message first (earlier ++ later) last := by
  induction after with
  | refl =>
      rw [List.append_nil]
      exact before
  | tail _ step inductionHypothesis =>
      rw [← List.append_assoc]
      exact .tail inductionHypothesis step

/-- What every step keeps, a sequence of steps keeps. -/
theorem preserves
    {holds : P2pNode → Prop}
    (each :
      ∀ ⦃first last : P2pNode⦄ ⦃event : NodeEvent⦄,
        NodeStep environment message first event last →
          holds first → holds last)
    {first last : P2pNode}
    {events : List NodeEvent}
    (trace : NodeTrace environment message first events last)
    (initially : holds first) :
    holds last := by
  induction trace with
  | refl => exact initially
  | tail _ step inductionHypothesis => exact each step inductionHypothesis

end NodeTrace

/--
Handling led from one state to another by steps, and reports what it pruned: the
identities of the pass grow by those of the steps.
-/
def Traced
    (environment : NodeEnvironment)
    (message : Message)
    (first last : Handling) :
    Prop :=
  ∃ events,
    NodeTrace environment message first.node events last.node ∧
      last.pass.result.historicalPrunedShareIds =
        first.pass.result.historicalPrunedShareIds ++
          events.flatMap NodeEvent.prunedIds ∧
      last.pass.result.historicalPrunedConnectedShares =
        first.pass.result.historicalPrunedConnectedShares +
          (events.flatMap NodeEvent.prunedIds).length

/-- A computation that only takes steps, however it ends. -/
def TakesSteps
    {α : Type}
    (environment : NodeEnvironment)
    (message : Message)
    (action : HandleM α) :
    Prop :=
  ∀ handling : Handling,
    Traced environment message handling (finalState (action handling))

/-- A computation that touches neither the node nor the reported prunes. -/
def LeavesNode {α : Type} (action : HandleM α) : Prop :=
  ∀ handling : Handling,
    (finalState (action handling)).node = handling.node ∧
      (finalState (action handling)).pass.result.historicalPrunedShareIds =
        handling.pass.result.historicalPrunedShareIds ∧
      (finalState
        (action handling)).pass.result.historicalPrunedConnectedShares =
        handling.pass.result.historicalPrunedConnectedShares

section Composition

variable {environment : NodeEnvironment} {message : Message}
variable {α β : Type}

theorem Traced.refl
    (handling : Handling) :
    Traced environment message handling handling :=
  ⟨[], .refl _, by simp, by simp⟩

theorem Traced.trans
    {first middle last : Handling}
    (before : Traced environment message first middle)
    (after : Traced environment message middle last) :
    Traced environment message first last := by
  obtain ⟨earlier, led, ids, count⟩ := before
  obtain ⟨later, ledOn, idsOn, countOn⟩ := after
  refine ⟨earlier ++ later, led.append ledOn, ?_, ?_⟩
  · rw [idsOn, ids, List.flatMap_append, List.append_assoc]
  · rw [countOn, count, List.flatMap_append, List.length_append]
    omega

theorem traced_bind
    {first : HandleM α}
    {next : α → HandleM β}
    {handling : Handling}
    (head :
      Traced environment message handling (finalState (first handling)))
    (tail :
      ∀ value middle,
        first handling = .ok value middle →
          Traced environment message middle
            (finalState (next value middle))) :
    Traced environment message handling
      (finalState ((first >>= next) handling)) :=
  finalState_bind (Traced environment message)
    (fun _ _ _ before after => before.trans after) head tail

theorem TakesSteps.bind
    {first : HandleM α}
    {next : α → HandleM β}
    (head : TakesSteps environment message first)
    (tail : ∀ value, TakesSteps environment message (next value)) :
    TakesSteps environment message (first >>= next) :=
  fun handling =>
    traced_bind (head handling) fun value middle _ => tail value middle

theorem TakesSteps.pure
    (value : α) :
    TakesSteps environment message (Pure.pure value : HandleM α) :=
  fun handling => .refl handling

theorem TakesSteps.throw
    (thrown : Exception) :
    TakesSteps environment message (MonadExcept.throw thrown : HandleM α) :=
  fun handling => .refl handling

theorem TakesSteps.get_bind
    {next : Handling → HandleM β}
    (tail :
      ∀ handling,
        Traced environment message handling
          (finalState (next handling handling))) :
    TakesSteps environment message (get >>= next) :=
  tail

theorem LeavesNode.traced
    {action : HandleM α}
    (leaves : LeavesNode action)
    (handling : Handling) :
    Traced environment message handling (finalState (action handling)) := by
  obtain ⟨node, ids, count⟩ := leaves handling
  refine ⟨[], ?_, by simp [ids], by simp [count]⟩
  rw [node]
  exact .refl _

theorem LeavesNode.takesSteps
    {action : HandleM α}
    (leaves : LeavesNode action) :
    TakesSteps environment message action :=
  leaves.traced

/-- The node after a computation that leaves it. -/
theorem LeavesNode.node_eq
    {action : HandleM α}
    (leaves : LeavesNode action)
    {handling middle : Handling}
    {value : α}
    (ran : action handling = .ok value middle) :
    middle.node = handling.node := by
  have same := (leaves handling).1
  rw [ran] at same
  exact same

theorem LeavesNode.bind
    {first : HandleM α}
    {next : α → HandleM β}
    (head : LeavesNode first)
    (tail : ∀ value, LeavesNode (next value)) :
    LeavesNode (first >>= next) :=
  fun handling =>
    finalState_bind
      (fun before after : Handling =>
        after.node = before.node ∧
          after.pass.result.historicalPrunedShareIds =
            before.pass.result.historicalPrunedShareIds ∧
          after.pass.result.historicalPrunedConnectedShares =
            before.pass.result.historicalPrunedConnectedShares)
      (fun _ _ _ before after =>
        ⟨after.1.trans before.1, after.2.1.trans before.2.1,
          after.2.2.trans before.2.2⟩)
      (head handling) (fun value middle _ => tail value middle)

theorem leavesNode_orThrow
    (computation : Except Exception α) :
    LeavesNode (orThrow computation) := by
  intro handling
  rw [finalState_orThrow]
  exact ⟨rfl, rfl, rfl⟩

theorem leavesNode_updatePass
    {update : Pass → Pass}
    (ids :
      ∀ pass,
        (update pass).result.historicalPrunedShareIds =
          pass.result.historicalPrunedShareIds)
    (count :
      ∀ pass,
        (update pass).result.historicalPrunedConnectedShares =
          pass.result.historicalPrunedConnectedShares) :
    LeavesNode (updatePass update) :=
  fun handling => ⟨rfl, ids handling.pass, count handling.pass⟩

theorem leavesNode_updateResult
    {update : P2pNodeMessageResult → P2pNodeMessageResult}
    (ids :
      ∀ result,
        (update result).historicalPrunedShareIds =
          result.historicalPrunedShareIds)
    (count :
      ∀ result,
        (update result).historicalPrunedConnectedShares =
          result.historicalPrunedConnectedShares) :
    LeavesNode (updateResult update) :=
  leavesNode_updatePass (fun pass => ids pass.result)
    (fun pass => count pass.result)

theorem leavesNode_requestShare
    (requestedId : ShareId)
    (nodeId : NodeId) :
    LeavesNode (requestShare requestedId nodeId) :=
  (leavesNode_orThrow _).bind fun _ =>
    leavesNode_updatePass (fun _ => rfl) (fun _ => rfl)

theorem leavesNode_relayChainTip : LeavesNode relayChainTip := by
  intro handling
  unfold relayChainTip
  rw [get_bind_apply]
  refine (leavesNode_orThrow _).bind (fun announcement => ?_) handling
  exact leavesNode_updatePass (fun _ => rfl) (fun _ => rfl)

theorem TakesSteps.updateResult_bind
    {update : P2pNodeMessageResult → P2pNodeMessageResult}
    {next : Unit → HandleM β}
    (ids :
      ∀ result,
        (update result).historicalPrunedShareIds =
          result.historicalPrunedShareIds)
    (count :
      ∀ result,
        (update result).historicalPrunedConnectedShares =
          result.historicalPrunedConnectedShares)
    (rest : TakesSteps environment message (next ())) :
    TakesSteps environment message (updateResult update >>= next) :=
  (leavesNode_updateResult ids count).takesSteps.bind fun _ => rest

theorem TakesSteps.updatePass_bind
    {update : Pass → Pass}
    {next : Unit → HandleM β}
    (ids :
      ∀ pass,
        (update pass).result.historicalPrunedShareIds =
          pass.result.historicalPrunedShareIds)
    (count :
      ∀ pass,
        (update pass).result.historicalPrunedConnectedShares =
          pass.result.historicalPrunedConnectedShares)
    (rest : TakesSteps environment message (next ())) :
    TakesSteps environment message (updatePass update >>= next) :=
  (leavesNode_updatePass ids count).takesSteps.bind fun _ => rest

theorem TakesSteps.orThrow_bind
    {computation : Except Exception α}
    {next : α → HandleM β}
    (rest :
      ∀ value,
        computation = .ok value →
          TakesSteps environment message (next value)) :
    TakesSteps environment message (orThrow computation >>= next) := by
  intro handling
  refine traced_bind ?_ ?_
  · rw [finalState_orThrow]
    exact .refl handling
  · intro value middle ran
    obtain ⟨computed, rfl⟩ := orThrow_eq_ok.mp ran
    exact rest value computed middle

theorem TakesSteps.onlyIf
    {condition : Bool}
    {action : HandleM Unit}
    (takes : TakesSteps environment message action) :
    TakesSteps environment message (ZanoP2pool.onlyIf condition action) := by
  unfold ZanoP2pool.onlyIf
  split_ifs
  · exact takes
  · exact .pure ()

/-- An update of the node that is a step. -/
theorem takesSteps_updateNode
    {update : P2pNode → P2pNode}
    (step :
      ∀ node,
        NodeStep environment message node .kept (update node)) :
    TakesSteps environment message (updateNode update) :=
  fun handling =>
    ⟨[.kept], .single (step handling.node), by simp [updateNode,
      NodeEvent.prunedIds], by simp [updateNode, NodeEvent.prunedIds]⟩

/-- A computation on the node that ends in one step that prunes nothing. -/
theorem traced_onNode
    {action : NodeM α}
    {handling : Handling}
    (event : NodeEvent)
    (quiet : event.prunedIds = [])
    (step :
      NodeStep environment message handling.node event
        (finalState (action handling.node))) :
    Traced environment message handling
      (finalState (onNode action handling)) := by
  unfold onNode
  rw [finalState_zoom]
  exact ⟨[event], .single step, by simp [quiet], by simp [quiet]⟩

/-- Local calls are a step aside. -/
theorem takesSteps_onCalls
    (action : QueryM α) :
    TakesSteps environment message (onNode (onCalls action)) := by
  intro handling
  refine traced_onNode .kept rfl ?_
  unfold onCalls
  rw [finalState_zoom]
  exact .aside handling.node _ _ _ _ _ rfl

/-- Uses of the retrieval object are steps aside. -/
theorem takesSteps_onRetrieval
    (action : RetrievalM α) :
    TakesSteps environment message (onNode (onRetrieval action)) := by
  intro handling
  refine traced_onNode .kept rfl ?_
  unfold onRetrieval
  cases present : handling.node.workRetrieval with
  | none =>
      exact .aside handling.node handling.node.workRetrieval
        handling.node.activeDeferredRecoveryRoot
        handling.node.replayFrontierAttempts handling.node.calls
        handling.node.actions rfl
  | some retrieval =>
      simp only
      cases action retrieval with
      | ok value next =>
          exact .aside handling.node _ _ _ _ _ (by rw [present]; rfl)
      | error thrown next =>
          exact .aside handling.node _ _ _ _ _ (by rw [present]; rfl)

end Composition

section Attempt

variable {environment : NodeEnvironment} {message : Message}

theorem finalState_onNodeChain
    {α : Type}
    (action : ChainM α)
    (node : P2pNode) :
    finalState (onNodeConsensus (onChain action) node) =
      node.withChain (finalState (action node.chain)) := by
  unfold onNodeConsensus
  rw [finalState_zoom]
  unfold onChain P2pNode.withChain P2pNode.chain
  cases action node.consensus.chain <;> rfl

/-- Pruning a displaced share is one step, or none. -/
theorem takesSteps_pruneDisplaced
    (candidateId : ShareId) :
    TakesSteps environment message (pruneDisplaced candidateId) := by
  intro handling
  unfold pruneDisplaced
  rw [get_bind_apply]
  cases found : handling.node.chain.find candidateId with
  | none => exact .refl handling
  | some replayed =>
      by_cases validated : replayed.validatedAncestry = true
      · simp only [if_pos validated]
        exact .refl handling
      simp only [if_neg validated]
      obtain ⟨prunedIds, chain, ran⟩ :=
        ShareChain.pruneConnectedSubtreeIds_ok handling.node.chain candidateId
      have onNode :
          onNodeChain (ShareChain.pruneConnectedSubtreeIds candidateId)
              handling =
            .ok prunedIds
              { handling with node := handling.node.withChain chain } := by
        unfold onNodeChain ZanoP2pool.onNode onNodeConsensus zoom onChain
        unfold P2pNode.chain at ran
        simp only [ran]
        rfl
      rw [bind_of_ok onNode]
      have step :=
        @NodeStep.pruned environment message handling.node candidateId
          replayed chain prunedIds found (by simpa using validated) ran
      unfold updateResult updatePass
      rw [modify_bind_apply]
      by_cases nothing : prunedIds.isEmpty = true
      · rw [if_pos nothing]
        have isNil := List.isEmpty_iff.mp nothing
        refine ⟨[.pruned prunedIds], ?_, ?_, ?_⟩
        · have led := NodeTrace.single step
          unfold P2pNode.afterPrune at led
          rw [if_pos nothing] at led
          exact led
        · simp [NodeEvent.prunedIds]
        · simp [NodeEvent.prunedIds]
      · rw [if_neg nothing]
        unfold updateNode
        rw [modify_bind_apply, get_bind_apply]
        have led := NodeTrace.single step
        unfold P2pNode.afterPrune at led
        rw [if_neg nothing] at led
        split_ifs
        · refine ⟨[.pruned prunedIds], led, ?_, ?_⟩ <;>
            simp [NodeEvent.prunedIds]
        · refine Traced.trans ?_ (leavesNode_relayChainTip.traced _)
          refine ⟨[.pruned prunedIds], led, ?_, ?_⟩ <;>
            simp [NodeEvent.prunedIds]

theorem takesSteps_deferBlocked
    (candidate : HistoricalCandidate)
    (candidateId : ShareId)
    (parentBlocked : Bool) :
    TakesSteps environment message
      (deferBlocked environment.backends.hashing message.now candidate
        candidateId parentBlocked) := by
  unfold deferBlocked
  split_ifs
  · refine (takesSteps_updateNode fun node =>
      .forgotRetryable node candidateId).bind fun _ => ?_
    intro handling
    exact traced_onNode .kept rfl (.deferred handling.node candidate)
  · exact .pure false

theorem takesSteps_keepRefused
    (candidate : HistoricalCandidate)
    (candidateId : ShareId)
    (deferred powUnavailable : Bool) :
    TakesSteps environment message
      (keepRefused environment.backends.hashing message.now candidate
        candidateId deferred powUnavailable) := by
  unfold keepRefused
  simp only
  split_ifs
  · refine (takesSteps_updateNode fun node =>
      .rememberedEvidence node _ candidate.evidence).bind fun _ => ?_
    exact (leavesNode_requestShare _ _).takesSteps
  · refine (takesSteps_updateNode fun node =>
      .rememberedEvidence node _ candidate.evidence).bind fun _ => ?_
    intro handling
    exact traced_onNode .kept rfl
      (.rememberedRetryable handling.node candidate)
  · intro handling
    have first :=
      @NodeStep.forgotRetryable environment message handling.node candidateId
    refine ⟨[.kept, .kept],
      .tail (.single first) (.forgotEvidence _ _), ?_, ?_⟩ <;>
      simp [updateNode, NodeEvent.prunedIds]

theorem takesSteps_refuseHistorical
    (candidate : HistoricalCandidate)
    (candidateId : ShareId)
    (allowParentDefer : Bool)
    (trust : HistoricalTrustResult) :
    TakesSteps environment message
      (refuseHistorical environment.backends.hashing message.now candidate
        candidateId allowParentDefer trust) := by
  unfold refuseHistorical
  refine .bind (takesSteps_pruneDisplaced candidateId).onlyIf fun _ => ?_
  refine .bind (takesSteps_deferBlocked candidate candidateId _)
    fun deferred => ?_
  exact takesSteps_keepRefused candidate candidateId deferred _

/-- Validating a replayed share in place is one step on the chain. -/
theorem takesSteps_revalidateReplayed
    {share : Share}
    {candidateId : ShareId}
    (identified :
      shareId environment.backends.hashing share = .ok candidateId) :
    TakesSteps environment message
      (revalidateReplayed environment.backends.hashing message share
        candidateId) := by
  intro handling
  unfold revalidateReplayed
  rw [get_bind_apply]
  cases registered : handling.node.trustedWork.find share.zanoHeight
      share.miningHeaderHash share.parentId with
  | none => exact .refl handling
  | some trusted =>
      refine traced_bind ?_ ?_
      · refine traced_onNode (.revalidated candidateId) rfl ?_
        rw [finalState_onNodeChain]
        exact .revalidated handling.node share candidateId trusted identified
          registered
      · intro revalidated middle _
        refine (?_ : TakesSteps environment message _) middle
        refine .updateResult_bind (fun _ => rfl) (fun _ => rfl) ?_
        cases revalidated.status with
        | validated =>
            exact .updateResult_bind (fun _ => rfl) (fun _ => rfl) (.pure _)
        | alreadyValidated => exact .pure none
        | parentUnvalidated => exact .throw _
        | notConnected => exact .throw _
        | rejected => exact .pure none

theorem takesSteps_resetExpected :
    TakesSteps environment message (updateNode P2pNode.resetExpected) :=
  takesSteps_updateNode .forgotExpected

theorem takesSteps_requestMissing
    (missing : Option ShareId)
    (nodeId : NodeId) :
    TakesSteps environment message (requestMissing missing nodeId) := by
  cases missing with
  | none => exact .pure ()
  | some requestedId => exact (leavesNode_requestShare _ _).takesSteps

theorem takesSteps_reportReceived
    (candidate : HistoricalCandidate)
    (retried : P2pShareReceiveResult) :
    TakesSteps environment message
      (reportReceived environment.backends.hashing candidate retried) := by
  unfold reportReceived
  refine .updateResult_bind (fun _ => rfl) (fun _ => rfl) ?_
  refine .bind takesSteps_resetExpected.onlyIf fun _ => ?_
  refine .bind (takesSteps_requestMissing _ _) fun _ => ?_
  refine .bind (TakesSteps.onlyIf (LeavesNode.takesSteps
    (leavesNode_updateResult (fun _ => rfl) (fun _ => rfl)))) fun _ => ?_
  split_ifs
  · refine .updateResult_bind (fun _ => rfl) (fun _ => rfl) ?_
    refine .orThrow_bind fun announcement _ => ?_
    refine .updatePass_bind (fun _ => rfl) (fun _ => rfl) ?_
    refine .bind leavesNode_relayChainTip.takesSteps fun _ => ?_
    exact .orThrow_bind fun id _ => .pure (some id)
  · exact .pure none

theorem takesSteps_receiveHistorical
    (candidate : HistoricalCandidate) :
    TakesSteps environment message
      (receiveHistorical environment.backends.hashing message candidate) := by
  intro handling
  unfold receiveHistorical
  rw [get_bind_apply]
  refine traced_bind ?_ ?_
  · refine traced_onNode (.received candidate.share) rfl ?_
    rw [finalState_onNodeChain]
    exact .received handling.node candidate.peer candidate.share
      candidate.requiredCapability
  · intro retried middle _
    exact takesSteps_reportReceived candidate retried middle

theorem takesSteps_admitHistorical
    {candidate : HistoricalCandidate}
    {candidateId : ShareId}
    (identified :
      shareId environment.backends.hashing candidate.share =
        .ok candidateId) :
    TakesSteps environment message
      (admitHistorical environment.backends.hashing message candidate
        candidateId) := by
  unfold admitHistorical
  refine .bind (takesSteps_updateNode fun node =>
    .forgotRetryable node candidateId) fun _ => ?_
  refine .bind (takesSteps_updateNode fun node =>
    .rememberedEvidence node _ candidate.evidence) fun _ => ?_
  refine .updateResult_bind (fun _ => rfl) (fun _ => rfl) ?_
  refine .get_bind fun handling => ?_
  split_ifs
  · exact takesSteps_revalidateReplayed identified handling
  · exact takesSteps_receiveHistorical candidate handling

/-- The diagnostics of an attempt report no prune. -/
theorem leavesNode_noteAttempt
    (share : Share)
    (candidateId : ShareId) :
    LeavesNode (updateResult (noteAttempt share candidateId)) :=
  leavesNode_updateResult (fun _ => rfl) (fun _ => rfl)

theorem leavesNode_noteTrust
    (trust : HistoricalTrustResult) :
    LeavesNode (updateResult (noteTrust trust)) := by
  refine leavesNode_updateResult ?_ ?_ <;>
    · intro result
      unfold noteTrust
      cases trust.status <;> rfl

theorem takesSteps_attemptHistorical
    (candidate : HistoricalCandidate)
    (allowParentDefer : Bool) :
    TakesSteps environment message
      (attemptHistorical environment message candidate
        allowParentDefer) := by
  intro handling
  unfold attemptHistorical
  rw [get_bind_apply]
  cases configured : handling.node.historicalParams with
  | none => exact .refl handling
  | some params =>
      simp only
      refine traced_bind ?_ ?_
      · rw [finalState_orThrow]
        exact .refl handling
      intro candidateId identifiedAt ran
      obtain ⟨identified, rfl⟩ := orThrow_eq_ok.mp ran
      refine traced_bind
        ((leavesNode_noteAttempt candidate.share candidateId).traced _) ?_
      intro _ noted notedIs
      have sameNode :=
        (leavesNode_noteAttempt candidate.share candidateId).node_eq notedIs
      refine traced_bind (takesSteps_onCalls _ noted) ?_
      intro observations observed ranCalls
      have stillConfigured : observed.node.historicalParams = some params := by
        unfold onNode onCalls at ranCalls
        obtain ⟨node, ranNode, rfl⟩ := zoom_eq_ok.mp ranCalls
        obtain ⟨calls, _, rfl⟩ := zoom_eq_ok.mp ranNode
        simp only
        rw [sameNode]
        exact configured
      refine traced_bind ?_ ?_
      · exact traced_onNode .authorized rfl
          (.crossed observed.node params candidate observations
            stillConfigured)
      intro trust crossed _
      refine traced_bind ((leavesNode_noteTrust trust).traced crossed) ?_
      intro _ concluded _
      split_ifs
      · exact (takesSteps_refuseHistorical candidate candidateId
          allowParentDefer trust).bind (fun _ => .pure none) concluded
      · exact takesSteps_admitHistorical identified concluded

end Attempt

section Resume

variable {environment : NodeEnvironment} {message : Message}

theorem takesSteps_resumeReady
    (candidateIds : List ShareId) :
    TakesSteps environment message
      (resumeReady environment message candidateIds) := by
  induction candidateIds with
  | nil => exact .pure []
  | cons candidateId rest inductionHypothesis =>
      unfold resumeReady
      refine .get_bind fun handling => ?_
      cases handling.node.deferredHistorical[candidateId]? with
      | none => exact inductionHypothesis handling
      | some deferred =>
          refine (?_ : TakesSteps environment message _) handling
          refine .bind (takesSteps_updateNode fun node =>
            .undeferred node candidateId) fun _ => ?_
          refine .bind (takesSteps_attemptHistorical _ _)
            fun connected => ?_
          exact .bind inductionHypothesis fun later => .pure _

theorem takesSteps_resumeQueue
    (rounds : Nat)
    (queue : List ShareId) :
    TakesSteps environment message
      (resumeQueue environment message rounds queue) := by
  induction rounds generalizing queue with
  | zero => exact .pure ()
  | succ rounds inductionHypothesis =>
      cases queue with
      | nil => exact .pure ()
      | cons parentId queue =>
          unfold resumeQueue
          refine .get_bind fun handling => ?_
          refine (?_ : TakesSteps environment message _) handling
          exact .bind (takesSteps_resumeReady _) fun connected =>
            inductionHypothesis (queue ++ connected)

theorem takesSteps_resumeDeferredDescendants
    (connectedParentId : ShareId) :
    TakesSteps environment message
      (resumeDeferredDescendants environment message connectedParentId) :=
  .get_bind fun handling => takesSteps_resumeQueue _ _ handling

theorem takesSteps_attemptThenResume
    (candidate : HistoricalCandidate) :
    TakesSteps environment message
      (attemptThenResume environment message candidate) := by
  unfold attemptThenResume
  refine .bind (takesSteps_attemptHistorical candidate true) fun attempted => ?_
  cases attempted with
  | none => exact .pure ()
  | some connected => exact takesSteps_resumeDeferredDescendants connected

theorem takesSteps_readLocalWork
    (key : MiningWorkKey) :
    TakesSteps environment message
      (onNode (readLocalWork environment key)) := by
  intro handling
  refine traced_onNode .kept rfl ?_
  unfold readLocalWork
  rw [get_bind_apply]
  cases present : handling.node.workRetrieval with
  | none =>
      exact .aside handling.node handling.node.workRetrieval
        handling.node.activeDeferredRecoveryRoot
        handling.node.replayFrontierAttempts handling.node.calls
        handling.node.actions rfl
  | some retrieval =>
      simp only
      unfold onCalls
      rw [finalState_zoom]
      exact .aside handling.node _ _ _ _ _ rfl

theorem takesSteps_attemptLocalHistorical
    (share : Share)
    (requiredCapability : UInt64) :
    TakesSteps environment message
      (attemptLocalHistorical environment message share
        requiredCapability) := by
  unfold attemptLocalHistorical
  refine .get_bind fun handling => ?_
  split_ifs
  · exact .refl handling
  · refine (?_ : TakesSteps environment message _) handling
    refine .bind (takesSteps_readLocalWork _) fun archived => ?_
    cases archived with
    | none => exact .pure false
    | some bytes =>
        refine .orThrow_bind fun proposal _ => ?_
        refine .bind (takesSteps_attemptThenResume _) fun _ => ?_
        exact .get_bind fun attempted => .refl attempted

end Resume

section Handlers

variable {environment : NodeEnvironment} {message : Message}

theorem takesSteps_expire :
    TakesSteps environment message
      (updateNode (P2pNode.expireHistoricalState message.now)) :=
  takesSteps_updateNode .expired

theorem takesSteps_retrieveWork
    (share : Share)
    (requiredCapability : UInt64) :
    TakesSteps environment message
      (retrieveWork message share requiredCapability) := by
  unfold retrieveWork
  refine .bind (takesSteps_onRetrieval _) fun begun => ?_
  cases begun with
  | none => exact .pure ()
  | some request =>
      refine .updatePass_bind (fun _ => rfl) (fun _ => rfl) ?_
      refine .get_bind fun handling => ?_
      refine (?_ : TakesSteps environment message _) handling
      exact (takesSteps_updateNode fun node =>
        .rememberedPending node share requiredCapability).onlyIf

theorem takesSteps_afterReceive
    (receive : P2pShareReceiveResult)
    (relayed : Except Exception P2pEnvelope) :
    TakesSteps environment message
      (afterReceive environment message receive relayed) := by
  have follows :
      TakesSteps environment message
        (followMissing receive.missingParentId) := by
    cases receive.missingParentId with
    | none => exact .pure ()
    | some requestedId =>
        exact .orThrow_bind fun request _ => LeavesNode.takesSteps
          (leavesNode_updatePass (fun _ => rfl) (fun _ => rfl))
  have relays :
      TakesSteps environment message
        (relayConnected environment message receive.chainResult.id
          relayed) := by
    unfold relayConnected
    refine .orThrow_bind fun announcement _ => ?_
    refine .updatePass_bind (fun _ => rfl) (fun _ => rfl) ?_
    refine .bind leavesNode_relayChainTip.takesSteps fun _ => ?_
    exact takesSteps_resumeDeferredDescendants _
  unfold afterReceive
  refine .bind takesSteps_resetExpected.onlyIf fun _ => ?_
  exact .bind follows fun _ => relays.onlyIf

theorem takesSteps_recoverAnnounced :
    TakesSteps environment message
      (recoverAnnounced environment message) := by
  unfold recoverAnnounced
  refine .orThrow_bind fun share _ => ?_
  refine .bind takesSteps_expire fun _ => ?_
  refine .get_bind fun live => ?_
  cases usableEvidence share live.node with
  | some evidence => exact takesSteps_attemptThenResume _ live
  | none => exact takesSteps_retrieveWork _ _ live

theorem takesSteps_handleShareAnnounce :
    TakesSteps environment message
      (handleShareAnnounce environment message) := by
  intro handling
  unfold handleShareAnnounce
  rw [get_bind_apply]
  refine traced_bind ?_ ?_
  · unfold onNodeChain receiveP2pShareAnnounce
    cases parsed : parseP2pShareAnnounceEnvelope environment.backends.hashing
        message.envelope with
    | error thrown => exact .refl handling
    | ok share =>
        refine traced_onNode (.received share) rfl ?_
        rw [finalState_onNodeChain, bind_of_ok (orThrow_ok _ _)]
        exact .received handling.node message.peer share
          kP2pCapabilityShareGossip
  · intro receive middle _
    refine (?_ : TakesSteps environment message _) middle
    refine .updateResult_bind (fun _ => rfl) (fun _ => rfl) ?_
    refine .bind takesSteps_recoverAnnounced.onlyIf fun _ => ?_
    exact takesSteps_afterReceive receive _

theorem takesSteps_handleShareRequest :
    TakesSteps environment message
      (handleShareRequest environment message) := by
  unfold handleShareRequest
  refine .get_bind fun handling => ?_
  refine (?_ : TakesSteps environment message _) handling
  refine .orThrow_bind fun answer _ => ?_
  refine .updatePass_bind (fun _ => rfl) (fun _ => rfl) ?_
  refine .orThrow_bind fun response _ => ?_
  have announces (tip : P2pTipHint) :
      TakesSteps environment message (announceTip tip) :=
    .orThrow_bind fun announcement _ => LeavesNode.takesSteps
      (leavesNode_updatePass (fun _ => rfl) (fun _ => rfl))
  refine .bind (announces _).onlyIf fun _ => ?_
  exact LeavesNode.takesSteps
    (leavesNode_updateResult (fun _ => rfl) (fun _ => rfl))

theorem takesSteps_recoverResponded
    (share : Share) :
    TakesSteps environment message
      (recoverResponded environment message share) := by
  unfold recoverResponded
  refine .bind takesSteps_expire fun _ => ?_
  refine .get_bind fun live => ?_
  cases usableEvidence share live.node with
  | some evidence => exact takesSteps_attemptThenResume _ live
  | none =>
      refine (?_ : TakesSteps environment message _) live
      refine .bind (takesSteps_attemptLocalHistorical _ _) fun settled => ?_
      exact (takesSteps_retrieveWork _ _).onlyIf

/-- A response leaves the chain alone or admits the share it carries. -/
theorem finalState_receiveP2pShareResponse
    (backend : Backend)
    (trustedWork : P2pTrustedWorkRegistry)
    (message : Message)
    (chain : ShareChain) :
    let received := finalState (receiveP2pShareResponse backend trustedWork
      message.peer message.envelope message.now message.mode chain)
    received = chain ∨
      ∃ share,
        received = finalState (receiveShare backend trustedWork
          message.peer.capabilities kP2pCapabilityShareSync share message.now
          message.mode chain) := by
  unfold receiveP2pShareResponse
  cases parseP2pShareResponseEnvelope backend message.envelope with
  | error thrown => exact .inl rfl
  | ok response =>
      rw [bind_of_ok (orThrow_ok _ _)]
      split_ifs
      · exact .inl rfl
      · cases response.share with
        | none => exact .inl rfl
        | some share =>
            right
            refine ⟨share, ?_⟩
            simp only
            rw [bind_apply]
            cases receiveShare backend trustedWork message.peer.capabilities
              kP2pCapabilityShareSync share message.now message.mode chain <;>
                rfl

theorem takesSteps_handleShareResponse :
    TakesSteps environment message
      (handleShareResponse environment message) := by
  intro handling
  unfold handleShareResponse
  rw [get_bind_apply]
  refine traced_bind ?_ ?_
  · unfold onNodeChain
    rcases finalState_receiveP2pShareResponse environment.backends.hashing
        handling.node.trustedWork message handling.node.chain with
      unchanged | ⟨share, received⟩
    · have same :
          finalState (onNode (onNodeConsensus (onChain
            (receiveP2pShareResponse environment.backends.hashing
              handling.node.trustedWork message.peer message.envelope
              message.now message.mode))) handling) = handling := by
        unfold onNode
        rw [finalState_zoom, finalState_onNodeChain, unchanged]
        rfl
      rw [same]
      exact .refl handling
    · refine traced_onNode (.received share) rfl ?_
      rw [finalState_onNodeChain, received]
      exact .received handling.node message.peer share
        kP2pCapabilityShareSync
  · intro sync middle _
    refine (?_ : TakesSteps environment message _) middle
    refine .updateResult_bind (fun _ => rfl) (fun _ => rfl) ?_
    cases sync.shareResult with
    | none => exact .pure ()
    | some receive =>
        refine .updateResult_bind (fun _ => rfl) (fun _ => rfl) ?_
        refine .orThrow_bind fun response _ => ?_
        cases response.share with
        | none => exact .pure ()
        | some share =>
            refine .bind (takesSteps_recoverResponded share).onlyIf
              fun _ => ?_
            exact takesSteps_afterReceive receive _

/-- Selecting a frontier only moves the roots that are kept to. -/
theorem takesSteps_selectFrontier
    (peer : P2pHandshake)
    (node : P2pNode) :
    NodeStep environment message node .kept (selectFrontier peer node).2 := by
  have roots (chosen : Std.ExtTreeMap NodeId ShareId) :
      NodeStep environment message node .kept
        { node with activeDeferredRecoveryRoot := chosen } :=
    .aside node node.workRetrieval chosen node.replayFrontierAttempts
      node.calls node.actions rfl
  unfold selectFrontier
  simp only
  split_ifs
  · exact roots node.activeDeferredRecoveryRoot
  · split
    · exact roots node.activeDeferredRecoveryRoot
    · split
      · exact roots _
      · exact roots _

theorem takesSteps_handleTipAnnounce :
    TakesSteps environment message (handleTipAnnounce message) := by
  unfold handleTipAnnounce
  refine .orThrow_bind fun hint _ => ?_
  refine .get_bind fun handling => ?_
  refine (?_ : TakesSteps environment message _) handling
  refine .updateResult_bind (fun _ => rfl) (fun _ => rfl) ?_
  refine .bind takesSteps_expire fun _ => ?_
  refine .get_bind fun live => ?_
  refine traced_bind ?_ ?_
  · refine ⟨[.kept], .single (takesSteps_selectFrontier message.peer
      live.node), ?_, ?_⟩ <;> simp [updateNode, NodeEvent.prunedIds]
  · intro _ selected _
    refine (?_ : TakesSteps environment message _) selected
    cases (selectFrontier message.peer live.node).1 with
    | some deferred => exact (leavesNode_requestShare _ _).takesSteps
    | none =>
        simp only
        split
        · refine .orThrow_bind fun request _ => ?_
          exact LeavesNode.takesSteps
            (leavesNode_updatePass (fun _ => rfl) (fun _ => rfl))
        · split_ifs
          · exact (leavesNode_requestShare _ _).takesSteps
          · exact .pure ()

theorem takesSteps_handleMiningContextAnnounce :
    TakesSteps environment message
      (handleMiningContextAnnounce environment message) := by
  intro handling
  unfold handleMiningContextAnnounce
  rw [get_bind_apply]
  cases installed : handling.node.localMiningAnchor with
  | none =>
      exact LeavesNode.traced
        (leavesNode_updateResult (fun _ => rfl) (fun _ => rfl)) handling
  | some anchor =>
      cases expects :
          announcedExpectation handling.node.consensus.expected with
      | none =>
          exact LeavesNode.traced
            (leavesNode_updateResult (fun _ => rfl) (fun _ => rfl)) handling
      | some expectation =>
          obtain ⟨parentId, expected⟩ := expectation
          refine traced_bind ?_ ?_
          · refine traced_onNode .authorized rfl ?_
            rw [finalState_zoom]
            exact .announced handling.node anchor parentId expected installed
              expects
          · intro trust promoted _
            exact LeavesNode.traced
              (leavesNode_updateResult (fun _ => rfl) (fun _ => rfl)) promoted

theorem traced_forgetPending
    (key : MiningWorkKey)
    (handling : Handling) :
    Traced environment message handling
      (forgetPending message key handling) := by
  refine ⟨[.kept], .single (.forgotPending handling.node _), ?_, ?_⟩ <;>
    simp [forgetPending, NodeEvent.prunedIds]

theorem takesSteps_attemptRetrieved
    (key : MiningWorkKey) :
    TakesSteps environment message
      (attemptRetrieved environment message key) := by
  unfold attemptRetrieved
  refine .bind takesSteps_expire fun _ => ?_
  refine .get_bind fun live => ?_
  refine (?_ : TakesSteps environment message _) live
  cases live.node.historicalParams with
  | none => exact .pure ()
  | some params =>
      cases live.node.pendingHistorical[
          ({ nodeId := message.peer.nodeId, key } : PendingKey)]? with
      | none => exact .pure ()
      | some pending =>
          refine .bind (takesSteps_onRetrieval _) fun taken => ?_
          cases taken with
          | none => exact .throw _
          | some bytes =>
              refine .orThrow_bind fun proposal _ => ?_
              refine .bind (traced_forgetPending key) fun _ => ?_
              exact takesSteps_attemptThenResume _

end Handlers

section Scheduling

variable {environment : NodeEnvironment} {message : Message}

theorem takesSteps_markFrontier
    (id : ShareId) :
    TakesSteps environment message (markFrontier message id) :=
  takesSteps_updateNode fun node =>
    .aside node node.workRetrieval node.activeDeferredRecoveryRoot _
      node.calls node.actions rfl

theorem takesSteps_requestFrontierWork
    (id : ShareId)
    (share : Share) :
    TakesSteps environment message
      (requestFrontierWork message id share) := by
  unfold requestFrontierWork
  refine .bind (takesSteps_onRetrieval _) fun begun => ?_
  cases begun with
  | none => exact .pure ()
  | some request =>
      refine .bind (takesSteps_markFrontier id) fun _ => ?_
      refine .updatePass_bind (fun _ => rfl) (fun _ => rfl) ?_
      exact takesSteps_updateNode fun node =>
        .rememberedPending node share _

theorem takesSteps_scanFrontiers
    (budget : Nat)
    (connected : Bool)
    (ids : List ShareId) :
    TakesSteps environment message
      (scanFrontiers environment message budget connected ids) := by
  induction ids generalizing budget connected with
  | nil =>
      cases budget with
      | zero => exact .pure connected
      | succ budget => exact .pure connected
  | cons id rest inductionHypothesis =>
      cases budget with
      | zero => exact .pure connected
      | succ budget =>
          unfold scanFrontiers
          refine .get_bind fun handling => ?_
          refine (?_ : TakesSteps environment message _) handling
          split_ifs
          · exact .pure connected
          · cases handling.node.untriedFrontier message.peer.nodeId id with
            | none => exact inductionHypothesis (budget + 1) connected
            | some share =>
                refine .bind (takesSteps_attemptLocalHistorical _ _)
                  fun handled => ?_
                split_ifs
                · refine .bind (takesSteps_markFrontier id) fun _ => ?_
                  refine .get_bind fun attempted => ?_
                  exact inductionHypothesis budget _ attempted
                · exact .bind (takesSteps_requestFrontierWork id share)
                    fun _ => .pure connected

theorem takesSteps_advanceFrontiers :
    TakesSteps environment message
      (advanceFrontiers environment message) := by
  unfold advanceFrontiers
  refine .bind takesSteps_expire fun _ => ?_
  refine .get_bind fun live => ?_
  refine (?_ : TakesSteps environment message _) live
  split_ifs
  · exact .pure false
  · refine .updateResult_bind (fun _ => rfl) (fun _ => rfl) ?_
    refine .bind (takesSteps_scanFrontiers _ _ _) fun connected => ?_
    exact .get_bind fun scanned => .refl scanned

end Scheduling

section Transport

variable {environment : NodeEnvironment} {message : Message}

theorem takesSteps_act
    (action : RuntimeAction) :
    TakesSteps environment message (act action) :=
  takesSteps_updateNode fun node =>
    .aside node node.workRetrieval node.activeDeferredRecoveryRoot
      node.replayFrontierAttempts node.calls _ rfl

end Transport

end ZanoP2pool
