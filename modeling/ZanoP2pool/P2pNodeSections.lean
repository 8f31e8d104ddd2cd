import ZanoP2pool.P2pNodeOps
import ZanoP2pool.P2pNodeSteps

namespace ZanoP2pool

open Foundation

/-!
# Locked sections of the operations

No call holds the lock of the node from its start to its end.  The handler takes it
for a case of the message, gives it up, and takes it again for the replay
scheduler; received work is handed to the retrieval, and the transport is called,
without it.  A retry and a replay recovery call the handler and local sources
between sections of their own.  Calls of other threads come between the sections,
so that an interleaving of calls is a list of sections.
-/

/-- The cases of the handler that hold the lock from their start to their end. -/
def lockedCase
    (environment : NodeEnvironment)
    (message : Message) :
    HandleM Unit :=
  match message.envelope.type with
  | .shareAnnounce => handleShareAnnounce environment message
  | .shareRequest => handleShareRequest environment message
  | .shareResponse => handleShareResponse environment message
  | .tipAnnounce => handleTipAnnounce message
  | .miningContextAnnounce => handleMiningContextAnnounce environment message
  | .miningWorkRequest => return ()
  | .miningWorkResponse => return ()
  | .handshake => return ()

/-- What the handler does between two moments at which other calls come in. -/
inductive HandlerPart where
  | locked
  -- the retrieval has a lock of its own
  | receive
  -- after the retrieval: the waiting ends, or the share that waited is tried
  | forgetPending (key : MiningWorkKey)
  | attemptRetrieved (key : MiningWorkKey)
  | advanceFrontiers
  -- the transport is called without the lock
  | act (action : RuntimeAction)

def HandlerPart.run
    (environment : NodeEnvironment)
    (message : Message) :
    HandlerPart → HandleM Unit
  | .locked => lockedCase environment message
  | .receive => do
      let _ ← onNode (onRetrieval (P2pWorkRetrieval.receive
        environment.backends.hashing environment.backends.json message.peer
        message.envelope message.now))
  | .forgetPending key => modify (ZanoP2pool.forgetPending message key)
  | .attemptRetrieved key =>
      ZanoP2pool.attemptRetrieved environment message key
  | .advanceFrontiers => do
      let _ ← ZanoP2pool.advanceFrontiers environment message
  | .act action => ZanoP2pool.act action

/-- What a thread does to a node while it holds the lock, or outside it. -/
inductive NodeSection where
  -- the local variables of the handler come from its earlier parts
  | handler (part : HandlerPart) (message : Message) (pass : Pass)
  | expire (now : UInt64)
  -- a retry registers its candidate again after a failure
  | restoreRetryable
      (now : UInt64)
      (candidate : RetryableHistoricalCandidate)
      (id : ShareId)
  | forgetRetryable (id : ShareId)
  -- a replay recovery reserves a frontier, and gives it up after a failure
  | reserve (key : ReplayFrontierKey) (now : UInt64)
  | release (key : ReplayFrontierKey)
  | revalidateArchived
      (id : ShareId)
      (context : ShareWorkContext)
      (now : UInt64)
      (mode : ProgPowZContextMode)
  -- local sources are called without the lock
  | consult (calls : Nat)
  | locally (call : LocalCall)

/-- The node after a section. -/
def NodeSection.run
    (environment : NodeEnvironment)
    (node : P2pNode) :
    NodeSection → P2pNode
  | .handler part message pass =>
      (finalState (part.run environment message { node, pass })).node
  | .expire now => node.expireHistoricalState now
  | .restoreRetryable now candidate id =>
      node.restoreRetryable now candidate id
  | .forgetRetryable id =>
      { node with retryableHistorical := node.retryableHistorical.erase id }
  | .reserve key now =>
      { node with
        replayFrontierAttempts := node.replayFrontierAttempts.insert key now }
  | .release key =>
      { node with
        replayFrontierAttempts := node.replayFrontierAttempts.erase key }
  | .revalidateArchived id context now mode =>
      finalState (ZanoP2pool.revalidateArchived environment now mode id
        context node)
  | .consult calls => { node with calls }
  | .locally call => finalState (call.run environment node)

/-- A section of the handler, of a retry or of a replay recovery. -/
def NodeSection.isRecovery : NodeSection → Bool
  | .locally _ => false
  | _ => true

/-- The node after a list of sections. -/
def runSections
    (environment : NodeEnvironment)
    (sections : List NodeSection)
    (node : P2pNode) :
    P2pNode :=
  sections.foldl (NodeSection.run environment) node

/-- The state is reached from the other by sections of recovery. -/
def Interleaved
    (environment : NodeEnvironment)
    (first last : P2pNode) :
    Prop :=
  ∃ sections,
    (∀ taken ∈ sections, NodeSection.isRecovery taken = true) ∧
      runSections environment sections first = last

section Composition

variable {environment : NodeEnvironment}
variable {α β : Type}

theorem Interleaved.refl
    (node : P2pNode) :
    Interleaved environment node node :=
  ⟨[], by simp, rfl⟩

theorem Interleaved.trans
    {first middle last : P2pNode}
    (before : Interleaved environment first middle)
    (after : Interleaved environment middle last) :
    Interleaved environment first last := by
  obtain ⟨earlier, earlierRecovers, rfl⟩ := before
  obtain ⟨later, laterRecovers, rfl⟩ := after
  refine ⟨earlier ++ later, ?_, ?_⟩
  · exact List.forall_mem_append.mpr ⟨earlierRecovers, laterRecovers⟩
  · unfold runSections
    rw [List.foldl_append]

theorem Interleaved.single
    (node : P2pNode)
    (taken : NodeSection)
    (recovers : taken.isRecovery = true) :
    Interleaved environment node (taken.run environment node) :=
  ⟨[taken], by simpa using recovers, rfl⟩

/-- A computation that runs in sections, however it ends. -/
def RunsInSections
    (environment : NodeEnvironment)
    (action : NodeM α) :
    Prop :=
  ∀ node, Interleaved environment node (finalState (action node))

theorem interleaved_bind
    {first : NodeM α}
    {next : α → NodeM β}
    {node : P2pNode}
    (head : Interleaved environment node (finalState (first node)))
    (tail :
      ∀ value middle,
        first node = .ok value middle →
          Interleaved environment middle (finalState (next value middle))) :
    Interleaved environment node (finalState ((first >>= next) node)) :=
  finalState_bind (Interleaved environment)
    (fun _ _ _ before after => before.trans after) head tail

theorem RunsInSections.bind
    {first : NodeM α}
    {next : α → NodeM β}
    (head : RunsInSections environment first)
    (tail : ∀ value, RunsInSections environment (next value)) :
    RunsInSections environment (first >>= next) :=
  fun node => interleaved_bind (head node) fun value middle _ =>
    tail value middle

theorem RunsInSections.pure
    (value : α) :
    RunsInSections environment (Pure.pure value : NodeM α) :=
  fun node => .refl node

theorem RunsInSections.orThrow
    (computation : Except Exception α) :
    RunsInSections environment (Foundation.orThrow computation) := by
  intro node
  rw [finalState_orThrow]
  exact .refl node

theorem runsInSections_modify
    {update : P2pNode → P2pNode}
    (taken : NodeSection)
    (recovers : taken.isRecovery = true)
    (runs : ∀ node, taken.run environment node = update node) :
    RunsInSections environment (modify update) := by
  intro node
  rw [modify_apply, finalState_ok, ← runs]
  exact .single node taken recovers

theorem RunsInSections.onCalls
    (action : QueryM α) :
    RunsInSections environment (ZanoP2pool.onCalls action) := by
  intro node
  unfold ZanoP2pool.onCalls
  rw [finalState_zoom]
  exact .single node (.consult _) rfl

end Composition

section Handler

variable {environment : NodeEnvironment} {message : Message}
variable {α β : Type}

theorem takesSteps_lockedCase :
    TakesSteps environment message (lockedCase environment message) := by
  unfold lockedCase
  cases message.envelope.type with
  | shareAnnounce => exact takesSteps_handleShareAnnounce
  | shareRequest => exact takesSteps_handleShareRequest
  | shareResponse => exact takesSteps_handleShareResponse
  | tipAnnounce => exact takesSteps_handleTipAnnounce
  | miningContextAnnounce => exact takesSteps_handleMiningContextAnnounce
  | miningWorkRequest => exact .pure ()
  | miningWorkResponse => exact .pure ()
  | handshake => exact .pure ()

/-- Every part of the handler takes steps of the handler. -/
theorem HandlerPart.takesSteps
    (part : HandlerPart) :
    TakesSteps environment message (part.run environment message) := by
  cases part with
  | locked => exact takesSteps_lockedCase
  | receive => exact .bind (takesSteps_onRetrieval _) fun _ => .pure ()
  | forgetPending key => exact traced_forgetPending key
  | attemptRetrieved key => exact takesSteps_attemptRetrieved key
  | advanceFrontiers => exact .bind takesSteps_advanceFrontiers fun _ => .pure ()
  | act action => exact takesSteps_act action

theorem NodeSection.handler_trace
    (part : HandlerPart)
    (message : Message)
    (pass : Pass)
    (node : P2pNode) :
    ∃ events,
      NodeTrace environment message node events
        ((NodeSection.handler part message pass).run environment node) := by
  obtain ⟨events, led, _⟩ :=
    @HandlerPart.takesSteps environment message part { node, pass }
  exact ⟨events, led⟩

/-- A computation of the handler that runs in sections, however it ends. -/
def HandlesInSections
    (environment : NodeEnvironment)
    (action : HandleM α) :
    Prop :=
  ∀ handling : Handling,
    Interleaved environment handling.node (finalState (action handling)).node

theorem handlesInSections_bind
    {first : HandleM α}
    {next : α → HandleM β}
    {handling : Handling}
    (head :
      Interleaved environment handling.node
        (finalState (first handling)).node)
    (tail :
      ∀ value, HandlesInSections environment (next value)) :
    Interleaved environment handling.node
      (finalState ((first >>= next) handling)).node :=
  finalState_bind
    (fun before after : Handling =>
      Interleaved environment before.node after.node)
    (fun _ _ _ before after => before.trans after) head
    fun value middle _ => tail value middle

theorem HandlesInSections.bind
    {first : HandleM α}
    {next : α → HandleM β}
    (head : HandlesInSections environment first)
    (tail : ∀ value, HandlesInSections environment (next value)) :
    HandlesInSections environment (first >>= next) :=
  fun handling => handlesInSections_bind (head handling) tail

theorem HandlesInSections.pure
    (value : α) :
    HandlesInSections environment (Pure.pure value : HandleM α) :=
  fun handling => .refl handling.node

theorem HandlesInSections.of_leaves
    {action : HandleM α}
    (leaves : LeavesNode action) :
    HandlesInSections environment action := by
  intro handling
  rw [(leaves handling).1]
  exact .refl handling.node

theorem HandlesInSections.onNode
    {action : NodeM α}
    (runs : RunsInSections environment action) :
    HandlesInSections environment (ZanoP2pool.onNode action) := by
  intro handling
  unfold ZanoP2pool.onNode
  rw [finalState_zoom]
  exact runs handling.node

theorem HandlesInSections.part
    (message : Message)
    (part : HandlerPart) :
    HandlesInSections environment (part.run environment message) :=
  fun handling =>
    .single handling.node (.handler part message handling.pass) rfl

theorem handlesInSections_handleMiningWorkRequest :
    HandlesInSections environment
      (handleMiningWorkRequest environment message) := by
  intro handling
  unfold handleMiningWorkRequest
  rw [get_bind_apply]
  cases handling.node.workRetrieval with
  | none => exact .refl handling.node
  | some retrieval =>
      refine (?_ : HandlesInSections environment _) handling
      refine .bind (.onNode (.onCalls _)) fun answer => ?_
      refine .bind (.of_leaves (leavesNode_updatePass
        (fun _ => rfl) (fun _ => rfl))) fun _ => ?_
      exact .of_leaves (leavesNode_updateResult
        (fun _ => rfl) (fun _ => rfl))

/-- Received work goes to the retrieval; after a failure the waiting ends. -/
theorem handlesInSections_receiveWork
    (key : MiningWorkKey) :
    HandlesInSections environment (receiveWork environment message key) := by
  intro handling
  have received := @HandlesInSections.part environment message .receive handling
  unfold receiveWork
  simp only [HandlerPart.run, bind_apply] at received
  cases ran : onNode (onRetrieval (P2pWorkRetrieval.receive
      environment.backends.hashing environment.backends.json message.peer
      message.envelope message.now)) handling with
  | ok value next =>
      rw [ran] at received
      exact received
  | error thrown next =>
      rw [ran] at received
      exact received.trans
        (@HandlesInSections.part environment message (.forgetPending key) next)

theorem handlesInSections_handleMiningWorkResponse :
    HandlesInSections environment
      (handleMiningWorkResponse environment message) := by
  intro handling
  unfold handleMiningWorkResponse
  rw [get_bind_apply]
  refine (?_ : HandlesInSections environment _) handling
  split_ifs
  · exact fun handling => .refl handling.node
  · refine .bind (.of_leaves (leavesNode_orThrow _)) fun response => ?_
    refine .bind (handlesInSections_receiveWork _) fun received => ?_
    refine .bind (.of_leaves (leavesNode_updatePass
      (fun _ => rfl) (fun _ => rfl))) fun _ => ?_
    refine .bind (.of_leaves (leavesNode_updateResult
      (fun _ => rfl) (fun _ => rfl))) fun _ => ?_
    split_ifs
    · exact .part message (.forgetPending _)
    · exact .pure ()
    · exact .part message (.attemptRetrieved _)

theorem handlesInSections_handleEnvelope :
    HandlesInSections environment (handleEnvelope environment message) := by
  have locked := @HandlesInSections.part environment message .locked
  unfold handleEnvelope
  simp only [HandlerPart.run, lockedCase] at locked
  cases isType : message.envelope.type with
  | miningWorkRequest => exact handlesInSections_handleMiningWorkRequest
  | miningWorkResponse => exact handlesInSections_handleMiningWorkResponse
  | handshake =>
      exact .of_leaves (leavesNode_updateResult
        (fun _ => rfl) (fun _ => rfl))
  | _ =>
      rw [isType] at locked
      exact locked

theorem handlesInSections_scheduleReplayFrontiers :
    HandlesInSections environment
      (scheduleReplayFrontiers environment message) := by
  intro handling
  unfold scheduleReplayFrontiers
  rw [get_bind_apply]
  refine (?_ : HandlesInSections environment _) handling
  split_ifs
  · have advances :
        HandlesInSections environment (advanceFrontiers environment message) := by
      intro start
      have part :=
        @HandlesInSections.part environment message .advanceFrontiers start
      simp only [HandlerPart.run, bind_apply] at part
      cases ran : advanceFrontiers environment message start <;>
        rw [ran] at part <;> exact part
    refine .bind advances fun connected => ?_
    intro advanced
    rw [get_bind_apply]
    refine (?_ : HandlesInSections environment _) advanced
    refine .bind (.of_leaves (leavesNode_orThrow _)) fun restored => ?_
    intro last
    exact .refl last.node
  · exact .pure ()

theorem handlesInSections_sendTo
    (message : Message)
    (nodeId : NodeId)
    (envelope : P2pEnvelope) :
    HandlesInSections environment (sendTo environment nodeId envelope) :=
  .bind (.part message (.act _)) fun _ => .onNode (.onCalls _)

theorem handlesInSections_relayToOthers
    (relayed : Option P2pEnvelope)
    (note : P2pNodeMessageResult → P2pNodeMessageResult) :
    HandlesInSections environment (relayToOthers message relayed note) := by
  cases relayed with
  | none => exact .pure ()
  | some envelope =>
      refine .bind (.part message (.act _)) fun _ => ?_
      intro handling
      exact .refl handling.node

theorem handlesInSections_finishMessage :
    HandlesInSections environment (finishMessage environment message) := by
  intro start
  unfold finishMessage
  rw [get_bind_apply]
  refine (?_ : HandlesInSections environment _) start
  refine .bind ?_ fun _ => ?_
  · unfold onlyIf
    split_ifs
    · exact .part message (.act _)
    · exact .pure ()
  refine .bind ?_ fun _ => ?_
  · cases start.pass.followup with
    | none => exact .pure ()
    | some followup =>
        refine .bind (handlesInSections_sendTo message _ _)
          fun sent => ?_
        exact .of_leaves (leavesNode_updateResult
          (fun _ => rfl) (fun _ => rfl))
  refine .bind ?_ fun _ => ?_
  · cases start.pass.freshTipFollowup with
    | none => exact .pure ()
    | some announcement =>
        exact .bind (handlesInSections_sendTo message _ _)
          fun _ => .pure ()
  refine .bind (handlesInSections_relayToOthers _ _) fun _ => ?_
  refine .bind (handlesInSections_relayToOthers _ _) fun _ => ?_
  intro finished
  exact .refl finished.node

/-- The handler runs in its sections, also when it throws. -/
theorem RunsInSections.handle
    (message : Message) :
    RunsInSections environment (P2pNode.handle environment message) := by
  intro node
  have handled :
      HandlesInSections environment (handleMessage environment message) :=
    .bind handlesInSections_handleEnvelope fun _ =>
      .bind handlesInSections_scheduleReplayFrontiers fun _ =>
        handlesInSections_finishMessage
  have ended := handled
    { node, pass := { followupPeer := message.peer.nodeId } }
  unfold P2pNode.handle
  cases ran : handleMessage environment message
      { node, pass := { followupPeer := message.peer.nodeId } } <;>
    rw [ran] at ended <;> exact ended

end Handler

section Retry

variable {environment : NodeEnvironment}
variable {now : UInt64} {mode : ProgPowZContextMode}

theorem runsInSections_handleRetry
    (candidate : RetryableHistoricalCandidate)
    (envelope : P2pEnvelope) :
    RunsInSections environment
      (handleRetry environment now mode candidate envelope) := by
  intro node
  have handled := @RunsInSections.handle environment
    { peer := candidate.candidatePeer, envelope, now, mode } node
  unfold handleRetry
  cases ran : P2pNode.handle environment
      { peer := candidate.candidatePeer, envelope, now, mode } node with
  | ok result next =>
      rw [ran] at handled
      exact handled
  | error thrown next =>
      rw [ran] at handled
      simp only
      cases shareId environment.backends.hashing candidate.share with
      | error other => exact handled
      | ok id =>
          exact handled.trans
            (.single next (.restoreRetryable now candidate id) rfl)

theorem runsInSections_settleRetry
    (share : Share)
    (result : P2pNodeMessageResult) :
    RunsInSections environment
      (settleRetry environment.backends.hashing share result) := by
  unfold settleRetry
  split_ifs
  · refine .bind (.orThrow _) fun id => ?_
    exact runsInSections_modify (.forgetRetryable id) rfl fun _ => rfl
  · exact .pure ()

theorem runsInSections_retryCandidates
    (summary : P2pHistoricalRetrySummary)
    (candidates : List RetryableHistoricalCandidate) :
    RunsInSections environment
      (retryCandidates environment now mode summary candidates) := by
  induction candidates generalizing summary with
  | nil => exact .pure summary
  | cons candidate rest inductionHypothesis =>
      unfold retryCandidates
      refine .bind ?_ fun next => inductionHypothesis next
      unfold retryCandidate
      refine .bind (.orThrow _) fun envelope => ?_
      refine .bind (runsInSections_handleRetry candidate envelope)
        fun result => ?_
      refine .bind (.orThrow _) fun admitted => ?_
      refine .bind (.orThrow _) fun admittedShares => ?_
      exact .bind (runsInSections_settleRetry candidate.share result)
        fun _ => .pure _

theorem runsInSections_expire :
    RunsInSections environment
      (modify (P2pNode.expireHistoricalState now)) :=
  runsInSections_modify (.expire now) rfl fun _ => rfl

theorem runsInSections_retryHistoricalPowUnavailable :
    RunsInSections environment
      (P2pNode.retryHistoricalPowUnavailable environment now mode) := by
  unfold P2pNode.retryHistoricalPowUnavailable
  refine .bind runsInSections_expire fun _ => ?_
  intro node
  rw [get_bind_apply]
  refine (?_ : RunsInSections environment _) node
  refine .bind (runsInSections_retryCandidates _ _) fun summary => ?_
  refine .bind runsInSections_expire fun _ => ?_
  exact fun retried => .refl retried

end Retry

section Recovery

variable {environment : NodeEnvironment}
variable {now : UInt64} {mode : ProgPowZContextMode}

theorem runsInSections_readLocalWork
    (key : MiningWorkKey) :
    RunsInSections environment (readLocalWork environment key) := by
  unfold readLocalWork
  intro node
  rw [get_bind_apply]
  cases node.workRetrieval with
  | none => exact .refl node
  | some retrieval => exact RunsInSections.onCalls _ node

theorem runsInSections_confirmedArchived
    (share : Share)
    (proposal : P2pMiningContextProposal) :
    RunsInSections environment
      (confirmedArchived environment share proposal) := by
  unfold confirmedArchived
  refine .bind (.orThrow _) fun header => ?_
  split_ifs
  · exact .pure none
  · refine .bind (.onCalls _) fun observations => ?_
    refine .bind (.onCalls _) fun initial => ?_
    split_ifs
    · exact .pure none
    · refine .bind (.onCalls _) fun final => ?_
      split_ifs
      · exact .pure none
      · exact .pure _

theorem runsInSections_recoverLocally
    (candidateId : ShareId)
    (share : Share) :
    RunsInSections environment
      (recoverLocally environment now mode candidateId share) := by
  unfold recoverLocally
  refine .bind ?_ fun archived => ?_
  · unfold archivedContext
    refine .bind (runsInSections_readLocalWork _) fun payload => ?_
    cases payload with
    | none => exact .pure none
    | some bytes =>
        refine .bind (.orThrow _) fun proposal => ?_
        exact runsInSections_confirmedArchived share proposal
  · cases archived with
    | none => exact .pure none
    | some context =>
        exact fun node =>
          .single node (.revalidateArchived candidateId context now mode) rfl

theorem runsInSections_recoverFrontier
    (peer : P2pHandshake)
    (candidateId : ShareId)
    (share : Share)
    (summary : P2pReplayRecoverySummary) :
    RunsInSections environment
      (recoverFrontier environment now mode peer candidateId share
        summary) := by
  have asksPeer :
      RunsInSections environment (do
        let envelope ← orThrow (makeP2pShareResponseEnvelope
          environment.backends.hashing candidateId (some share))
        let result ← P2pNode.handle environment { peer, envelope, now, mode }
        return summary.ofResult result) :=
    .bind (.orThrow _) fun envelope =>
      .bind (.handle _) fun result => .pure _
  unfold recoverFrontier
  refine .bind (runsInSections_recoverLocally candidateId share)
    fun status => ?_
  split
  · exact .pure _
  · exact .pure _
  · exact asksPeer

theorem runsInSections_recoverReserved
    (peer : P2pHandshake)
    (key : ReplayFrontierKey)
    (candidateId : ShareId)
    (share : Share)
    (summary : P2pReplayRecoverySummary) :
    RunsInSections environment
      (recoverReserved environment now mode peer key candidateId share
        summary) := by
  intro node
  have recovered := @runsInSections_recoverFrontier environment now mode peer
    candidateId share summary node
  unfold recoverReserved
  cases ran : recoverFrontier environment now mode peer candidateId share
      summary node with
  | ok value next =>
      rw [ran] at recovered
      exact recovered
  | error thrown next =>
      rw [ran] at recovered
      exact recovered.trans (.single next (.release key) rfl)

theorem runsInSections_recoverWithPeers
    (peers : List P2pHandshake) :
    RunsInSections environment
      (recoverWithPeers environment now mode peers) := by
  induction peers with
  | nil => exact .pure _
  | cons peer rest inductionHypothesis =>
      unfold recoverWithPeers
      split_ifs
      · exact inductionHypothesis
      refine .bind runsInSections_expire fun _ => ?_
      intro node
      rw [get_bind_apply]
      split_ifs
      · exact .refl node
      cases node.nextFrontier peer.nodeId with
      | none => exact inductionHypothesis node
      | some frontier =>
          obtain ⟨frontierId, share⟩ := frontier
          refine interleaved_bind (.single node (.reserve _ now) rfl) ?_
          intro _ reserved _
          refine (?_ : RunsInSections environment _) reserved
          refine .bind (.orThrow _) fun candidateId => ?_
          exact runsInSections_recoverReserved _ _ _ _ _

theorem runsInSections_advanceReplayRecovery
    (peers : List P2pHandshake) :
    RunsInSections environment
      (P2pNode.advanceReplayRecovery environment now mode peers) := by
  unfold P2pNode.advanceReplayRecovery
  refine .bind (runsInSections_recoverWithPeers peers) fun summary => ?_
  refine .bind runsInSections_expire fun _ => ?_
  exact fun node => .refl node

end Recovery

/-- A handler, a retry or a replay recovery. -/
def NodeOp.isRecovery : NodeOp → Bool
  | .locally _ => false
  | _ => true

/-- Every operation of recovery runs in its sections, also when it throws. -/
theorem attempt_interleaved
    (environment : NodeEnvironment)
    (node : P2pNode)
    {op : NodeOp}
    (recovers : op.isRecovery = true) :
    Interleaved environment node (op.attempt environment node) := by
  unfold NodeOp.attempt
  refine (?_ : RunsInSections environment _) node
  cases op with
  | handle message => exact .bind (.handle message) fun _ => .pure ()
  | retryHistoricalPowUnavailable now mode =>
      exact .bind runsInSections_retryHistoricalPowUnavailable fun _ =>
        .pure ()
  | advanceReplayRecovery peers now mode =>
      exact .bind (runsInSections_advanceReplayRecovery peers) fun _ =>
        .pure ()
  | locally call => cases recovers

/-- A sequence of operations runs in sections, local calls being one each. -/
theorem attemptNodeOps_sections
    (environment : NodeEnvironment)
    (ops : List NodeOp)
    (node : P2pNode) :
    ∃ sections,
      runSections environment sections node =
          attemptNodeOps environment ops node ∧
        ∀ call, .locally call ∈ sections → .locally call ∈ ops := by
  induction ops generalizing node with
  | nil => exact ⟨[], rfl, by simp⟩
  | cons op rest inductionHypothesis =>
      have first :
          ∃ sections,
            runSections environment sections node =
                op.attempt environment node ∧
              ∀ call, .locally call ∈ sections → op = .locally call := by
        cases recovers : op.isRecovery with
        | true =>
            obtain ⟨sections, allRecover, ran⟩ :=
              attempt_interleaved environment node recovers
            refine ⟨sections, ran, ?_⟩
            intro call member
            cases allRecover _ member
        | false =>
            cases op with
            | locally call => exact ⟨[.locally call], rfl, by simp [eq_comm]⟩
            | handle message => cases recovers
            | retryHistoricalPowUnavailable now mode => cases recovers
            | advanceReplayRecovery peers now mode => cases recovers
      obtain ⟨earlier, ran, local₁⟩ := first
      obtain ⟨later, continued, local₂⟩ :=
        inductionHypothesis (op.attempt environment node)
      refine ⟨earlier ++ later, ?_, ?_⟩
      · unfold runSections at ran continued ⊢
        rw [List.foldl_append, ran, continued]
        rfl
      · intro call member
        rcases List.mem_append.mp member with before | after
        · rw [local₁ call before]
          exact List.mem_cons_self
        · exact List.mem_cons_of_mem _ (local₂ call after)

end ZanoP2pool
