import ZanoP2pool.P2pNodeChain

namespace ZanoP2pool

open Foundation

/-!
# The expected payout

A node checks announced work against at most one payout, an address or a plan, and
the parent share that this payout was computed for.  The parent stays connected:
whatever takes shares away also forgets the expectation.
-/

/-- At most one payout is expected, under a parent that is still connected. -/
structure PayoutExpectation.Consistent
    (expected : PayoutExpectation)
    (chain : ShareChain) :
    Prop where
  single : ¬ (expected.payout.isSome = true ∧ expected.plan.isSome = true)
  bound :
    expected.parentId.isSome = true ↔
      expected.payout.isSome = true ∨ expected.plan.isSome = true
  connected :
    ∀ parentId,
      expected.parentId = some parentId →
        parentId = 0 ∨ chain.contains parentId = true

namespace PayoutExpectation

variable {chain next : ShareChain} {expected : PayoutExpectation}

theorem Consistent.none
    (chain : ShareChain) :
    Consistent {} chain :=
  ⟨by simp, by simp, by simp⟩

/-- An expectation stays consistent while what is connected stays. -/
theorem Consistent.extend
    (consistent : expected.Consistent chain)
    (grows : chain.Extends next) :
    expected.Consistent next :=
  ⟨consistent.single, consistent.bound, fun parentId isParent =>
    (consistent.connected parentId isParent).imp_right grows.contains⟩

/-- An address under a usable parent. -/
theorem Consistent.address
    {payout : PayoutPublicKeys}
    {parentId : ShareId}
    (usable : parentId = 0 ∨ chain.contains parentId = true) :
    Consistent { payout := some payout, parentId := some parentId } chain := by
  refine ⟨by simp, by simp, ?_⟩
  rintro _ ⟨⟩
  exact usable

/-- A plan under a usable parent. -/
theorem Consistent.plan
    {plan : PplnsCoinbasePlan}
    {parentId : ShareId}
    (usable : parentId = 0 ∨ chain.contains parentId = true) :
    Consistent { plan := some plan, parentId := some parentId } chain := by
  refine ⟨by simp, by simp, ?_⟩
  rintro _ ⟨⟩
  exact usable

end PayoutExpectation

section Parents

variable {backend : Backend} {chain : ShareChain}

/-- The best tip is connected under its identity. -/
theorem bestTipParent_usable
    (upright : chain.Upright backend) :
    bestTipParent chain = 0 ∨ chain.contains (bestTipParent chain) = true := by
  unfold bestTipParent
  cases tip : chain.bestTip with
  | none => exact .inl rfl
  | some entry =>
      right
      unfold ShareChain.bestTip at tip
      obtain ⟨id, _, found⟩ := Option.bind_eq_some_iff.mp tip
      simp only
      rw [(upright.1.keyed found).1]
      exact contains_iff_getElem?.mpr ⟨entry, found⟩

/-- A resolved parent is zero or connected. -/
theorem resolveParent_usable
    (upright : chain.Upright backend)
    {missing unvalidated : String}
    {parentId : Option ShareId}
    {resolved : ShareId}
    (resolves :
      resolveParent chain missing unvalidated parentId = .ok resolved) :
    resolved = 0 ∨ chain.contains resolved = true := by
  cases parentId with
  | none =>
      cases resolves
      exact bestTipParent_usable upright
  | some explicit =>
      unfold resolveParent at resolves
      simp only at resolves
      by_cases zero : isZeroShareId explicit = true
      · rw [if_pos zero] at resolves
        cases resolves
        exact .inl (isZeroShareId_iff.mp zero)
      rw [if_neg zero] at resolves
      cases found : chain.find explicit with
      | none =>
          rw [found] at resolves
          cases resolves
      | some parent =>
          rw [found] at resolves
          simp only at resolves
          split_ifs at resolves
          cases resolves
          exact .inr (contains_iff_getElem?.mpr ⟨parent, found⟩)

end Parents

namespace P2pNode

/-- The node expects a payout consistently, on an upright chain. -/
structure ExpectsConsistently
    (backend : Backend)
    (node : P2pNode) :
    Prop where
  upright : node.chain.Upright backend
  consistent : node.consensus.expected.Consistent node.chain

variable {backend : Backend} {first last : P2pNode}

/-- Nothing that a step or section does to the chain breaks the expectation. -/
theorem ExpectsConsistently.effect
    (expects : first.ExpectsConsistently backend)
    (effect : ChainEffect backend first last) :
    last.ExpectsConsistently backend := by
  obtain ⟨upright, consistent⟩ := expects
  cases effect with
  | kept chain expected =>
      refine ⟨chain ▸ upright, ?_⟩
      rcases expected with same | forgotten
      · rw [same, chain]
        exact consistent
      · rw [forgotten]
        exact .none _
  | called op keeps chain expected =>
      refine ⟨chain ▸ op.run_upright upright, ?_⟩
      rw [expected, chain]
      exact consistent.extend (op.run_extends upright keeps)
  | pruned root prunedIds present ran expected =>
      obtain ⟨prunedUpright, _, reports⟩ :=
        ShareChain.pruneConnectedSubtreeIds_reports upright ran
      refine ⟨prunedUpright, ?_⟩
      rcases expected with nothing | forgotten
      · exact absurd nothing (reports present)
      · rw [forgotten]
        exact .none _

/-- A reconciliation keeps the expectation consistent. -/
theorem ExpectsConsistently.reconciled
    (expects : first.ExpectsConsistently backend)
    (stale : P2pTrustedWorkRegistry → Share → Bool)
    (revoke : P2pTrustedWorkRegistry → Nat × P2pTrustedWorkRegistry)
    (resets : P2pCanonicalReconciliationResult → Bool)
    (resetting :
      ∀ result, result.prunedConnectedShares ≠ 0 → resets result = true) :
    ∃ result last,
      onNodeConsensus (reconcile stale revoke resets) first =
          .ok result last ∧
        last.ExpectsConsistently backend := by
  obtain ⟨result, final, ran, upright, unchanged⟩ :=
    @reconcile_returns backend first.consensus expects.upright stale revoke
      resets resetting
  refine ⟨result, { first with consensus := final }, ?_, upright, ?_⟩
  · unfold onNodeConsensus zoom
    rw [ran]
  · rcases unchanged with ⟨chain, expected⟩ | forgotten
    · change final.expected.Consistent final.chain
      rw [chain, expected]
      exact expects.consistent
    · change final.expected.Consistent final.chain
      rw [forgotten]
      exact .none _

/-- The reset after a replaced parent ends consistently. -/
theorem ExpectsConsistently.replaced
    (expects : first.ExpectsConsistently backend)
    (anchor : P2pMiningAnchor) :
    ∃ last,
      reconcileLocalParentReplacement anchor first = .ok () last ∧
        last.ExpectsConsistently backend := by
  unfold reconcileLocalParentReplacement
  rw [get_bind_apply]
  split_ifs
  · obtain ⟨result, last, ran, kept⟩ := expects.reconciled
      (minedOnDisplacedParent anchor.zanoHeight anchor.prevHash)
      (P2pTrustedWorkRegistry.eraseZanoParentMismatch anchor.zanoHeight
        anchor.prevHash)
      (fun result => result.prunedConnectedShares ≠ 0)
      (fun result pruned => by simpa using pruned)
    refine ⟨last.resetExpected, ?_, kept.upright, .none _⟩
    unfold reconcileCanonicalParent
    rw [bind_of_ok ran]
    rfl
  · exact ⟨first, rfl, expects⟩

/-- Installing a local context keeps the expectation consistent. -/
theorem ExpectsConsistently.installed
    (expects : first.ExpectsConsistently backend)
    (anchor : P2pMiningAnchor)
    (proposal : P2pMiningContextProposal)
    (payout : ContextPayout) :
    (finalState (setLocalMiningContext anchor proposal payout
      first)).ExpectsConsistently backend := by
  obtain ⟨replaced, ran, kept⟩ := expects.replaced anchor
  unfold setLocalMiningContext
  rw [bind_of_ok ran, get_bind_apply]
  cases computed : payout.expectation replaced.chain
      replaced.consensus.expected with
  | error thrown => exact kept
  | ok expected =>
      rw [bind_of_ok (orThrow_ok _ _)]
      refine ⟨kept.upright, ?_⟩
      change expected.Consistent replaced.chain
      cases payout with
      | unchanged =>
          cases computed
          exact kept.consistent
      | address keys =>
          cases computed
          exact .address (bestTipParent_usable kept.upright)
      | plan coinbase parentId =>
          obtain ⟨resolved, resolves, isPlan⟩ :=
            except_bind_eq_ok.mp computed
          cases isPlan
          exact .plan (resolveParent_usable kept.upright resolves)

/-- Authorizing local work only changes the registry. -/
theorem finalState_rememberTrustedWork
    (backend : Backend)
    (json : JsonBackend)
    (context : ShareWorkContext)
    (parentId : Option ShareId)
    (node : P2pNode) :
    ∃ trustedWork,
      finalState (rememberTrustedWork backend json context parentId node) =
        node.withTrustedWork trustedWork := by
  unfold rememberTrustedWork
  rw [get_bind_apply]
  cases anchorIs : node.localMiningAnchor with
  | none => exact ⟨node.trustedWork, rfl⟩
  | some anchor =>
      cases proposalIs : node.localMiningContext with
      | none => exact ⟨node.trustedWork, rfl⟩
      | some proposal =>
          simp only
          rw [bind_apply]
          cases requireInstalledWork backend json context anchor proposal with
          | error thrown => exact ⟨node.trustedWork, rfl⟩
          | ok _ =>
              simp only [orThrow_ok]
              rw [bind_apply]
              cases resolveParent node.chain
                  "trusted local work parent is not connected"
                  "trusted local work parent lacks validated ancestry"
                  parentId with
              | error thrown => exact ⟨node.trustedWork, rfl⟩
              | ok resolved =>
                  simp only [orThrow_ok]
                  rw [bind_apply]
                  cases requirePayoutParent node.consensus.expected
                      parentId with
                  | error thrown => exact ⟨node.trustedWork, rfl⟩
                  | ok _ =>
                      simp only [orThrow_ok]
                      rw [bind_apply]
                      cases node.trustedWork.rememberWithProvenance context
                          resolved anchor.prevHash with
                      | error thrown => exact ⟨node.trustedWork, rfl⟩
                      | ok trustedWork =>
                          refine ⟨trustedWork, ?_⟩
                          simp only [withTrustedWork, anchorIs, proposalIs]
                          rfl

end P2pNode

/-- A call that takes no shares out of the chain behind the node's back. -/
def LocalCall.keepsChain : LocalCall → Bool
  | .chain op => !op.isPrune
  | _ => true

section Runs

variable {environment : NodeEnvironment} {node : P2pNode}

/-- Every local call keeps the expectation consistent, also when it throws. -/
theorem LocalCall.run_expects
    (expects :
      node.ExpectsConsistently environment.backends.hashing)
    {call : LocalCall}
    (keeps : call.keepsChain = true) :
    (finalState (call.run environment node)).ExpectsConsistently
      environment.backends.hashing := by
  have ⟨upright, consistent⟩ := expects
  cases call with
  | setHistoricalTrustSources params =>
      simp only [run, P2pNode.setHistoricalTrustSources]
      rw [get_bind_apply, bind_apply]
      cases node.chain.matchesSidechainParameters
          environment.backends.hashing params with
      | error thrown => exact expects
      | ok matching =>
          cases matching with
          | true => exact ⟨upright, consistent⟩
          | false => exact expects
  | setLocalMiningContext anchor proposal payout =>
      exact expects.installed anchor proposal payout
  | setExpectedPayout payout =>
      exact ⟨upright, .address (bestTipParent_usable upright)⟩
  | setExpectedPayoutPlan plan =>
      exact ⟨upright, .plan (bestTipParent_usable upright)⟩
  | clearExpectedPayout => exact ⟨upright, .none _⟩
  | rememberTrustedWork context parentId =>
      obtain ⟨trustedWork, final⟩ := P2pNode.finalState_rememberTrustedWork
        environment.backends.hashing environment.backends.json context parentId
        node
      simp only [run]
      rw [final]
      exact ⟨upright, consistent⟩
  | reconcileCanonicalParent zanoHeight canonicalParentHash =>
      obtain ⟨result, last, ran, kept⟩ := expects.reconciled
        (minedOnDisplacedParent zanoHeight canonicalParentHash)
        (P2pTrustedWorkRegistry.eraseZanoParentMismatch zanoHeight
          canonicalParentHash)
        (fun result => result.prunedConnectedShares ≠ 0)
        (fun result pruned => by simpa using pruned)
      simp only [run, ZanoP2pool.reconcileCanonicalParent]
      rw [bind_of_ok ran]
      exact kept
  | reconcileUnavailableWorkHeight zanoHeight =>
      obtain ⟨result, last, ran, kept⟩ := expects.reconciled
        (fun _ share => share.zanoHeight = zanoHeight)
        (P2pTrustedWorkRegistry.eraseZanoHeight zanoHeight)
        (fun result =>
          result.prunedConnectedShares ≠ 0 ∨ result.revokedTrustedWork ≠ 0)
        (fun result pruned => decide_eq_true (.inl pruned))
      simp only [run, ZanoP2pool.reconcileUnavailableWorkHeight]
      rw [bind_of_ok ran]
      exact kept
  | reconcileUnavailableWorkAbove maximumZanoHeight =>
      obtain ⟨result, last, ran, kept⟩ := expects.reconciled
        (fun _ share => maximumZanoHeight < share.zanoHeight)
        (P2pTrustedWorkRegistry.eraseZanoHeightsAbove maximumZanoHeight)
        (fun result =>
          result.prunedConnectedShares ≠ 0 ∨ result.revokedTrustedWork ≠ 0)
        (fun result pruned => decide_eq_true (.inl pruned))
      simp only [run, ZanoP2pool.reconcileUnavailableWorkAbove]
      rw [bind_of_ok ran]
      exact kept
  | rememberLocal proposal =>
      simp only [run, onRetrieval]
      cases node.workRetrieval with
      | none => exact expects
      | some retrieval =>
          simp only
          cases P2pWorkRetrieval.rememberLocal environment.backends.hashing
            environment.backends.json proposal retrieval <;>
              exact ⟨upright, consistent⟩
  | chain op =>
      have keepsConnected : op.isPrune = false := by
        simpa [keepsChain] using keeps
      refine expects.effect (.called op keepsConnected ?_ ?_)
      · simp only [run]
        rw [finalState_onNodeChain]
        rfl
      · simp only [run]
        rw [finalState_onNodeChain]
        rfl

/-- Every section keeps the expectation consistent. -/
theorem NodeSection.run_expects
    (expects :
      node.ExpectsConsistently environment.backends.hashing)
    {taken : NodeSection}
    (keeps :
      ∀ call, taken = .locally call → call.keepsChain = true) :
    (taken.run environment node).ExpectsConsistently
      environment.backends.hashing := by
  have ⟨upright, consistent⟩ := expects
  cases taken with
  | handler part message pass =>
      obtain ⟨_, trace⟩ :=
        @NodeSection.handler_trace environment part message pass node
      exact trace.preserves
        (fun _ _ _ step before => before.effect step.chainEffect) expects
  | expire now => exact ⟨upright, consistent⟩
  | restoreRetryable now candidate id =>
      simp only [run, P2pNode.restoreRetryable]
      split_ifs <;> exact ⟨upright, consistent⟩
  | forgetRetryable id => exact ⟨upright, consistent⟩
  | reserve key now => exact ⟨upright, consistent⟩
  | release key => exact ⟨upright, consistent⟩
  | revalidateArchived id context now mode =>
      exact expects.effect (revalidateArchived_chainEffect _ _ _ _ _)
  | consult calls => exact ⟨upright, consistent⟩
  | locally call => exact LocalCall.run_expects expects (keeps call rfl)

theorem runSections_expects
    (expects :
      node.ExpectsConsistently environment.backends.hashing)
    {sections : List NodeSection}
    (keeps :
      ∀ call, .locally call ∈ sections → call.keepsChain = true) :
    (runSections environment sections node).ExpectsConsistently
      environment.backends.hashing := by
  induction sections generalizing node with
  | nil => exact expects
  | cons taken rest inductionHypothesis =>
      refine inductionHypothesis (NodeSection.run_expects expects ?_)
        fun call member => keeps call (List.mem_cons_of_mem _ member)
      rintro call rfl
      exact keeps call List.mem_cons_self

end Runs

/--
Whatever interleaving of operations, and of additions to the chain, has run: at
most one payout is expected, exactly when its parent is, and the parent is zero or
connected.
-/
theorem payoutExpectation_consistent
    {environment : NodeEnvironment}
    {origin : ShareChain}
    (fresh : ShareChain.Fresh environment.backends.hashing origin)
    {past : List ChainOp}
    {start : P2pNode}
    (loaded :
      start.chain = attemptOps environment.backends.hashing past origin)
    (unset : start.consensus.expected = {}) :
    (∀ sections,
      (∀ call, .locally call ∈ sections → call.keepsChain = true) →
        let reached := runSections environment sections start
        reached.consensus.expected.Consistent reached.chain) ∧
      ∀ ops,
        (∀ call, .locally call ∈ ops → call.keepsChain = true) →
          let reached := attemptNodeOps environment ops start
          reached.consensus.expected.Consistent reached.chain := by
  have expects :
      start.ExpectsConsistently environment.backends.hashing := by
    have wellFormed := fresh.wellFormed
    obtain ⟨sound, trusted, _⟩ :=
      @attemptOps_sound environment.backends.hashing past origin
        wellFormed.sound wellFormed.trusted
    refine ⟨?_, ?_⟩
    · rw [loaded]
      exact ⟨sound, trusted⟩
    · rw [unset]
      exact .none _
  refine ⟨fun sections keeps => ?_, fun ops keeps => ?_⟩
  · exact (runSections_expects expects keeps).consistent
  · obtain ⟨sections, ran, calls⟩ :=
      attemptNodeOps_sections environment ops start
    have reached := runSections_expects expects fun call member =>
      keeps call (calls call member)
    rw [ran] at reached
    exact reached.consistent

/-- A share arrives, a payout is expected on it, and a message is handled. -/
def sampleExpectingOps : List NodeOp :=
  [ .locally (.chain (.addUnchecked (sampleRoot 0)))
  , .locally (.setExpectedPayout { spendPublicKey := 7, viewPublicKey := 7 })
  , .handle (sampleResponse (sampleChild 77 1 2) 1) ]

theorem sampleExpectingOps_consistent :
    let start : P2pNode := { sampleRecovery with
      consensus := { chain := sampleStart } }
    let reached := attemptNodeOps (sampleEnvironment 53) sampleExpectingOps
      start
    reached.consensus.expected.parentId = some 1 ∧
      reached.consensus.expected.Consistent reached.chain := by
  refine ⟨by decide +kernel, ?_⟩
  have built : ShareChain.Fresh (sampleEnvironment 53).backends.hashing
      sampleStart := .inr ⟨sampleParameters, sampleStart_built⟩
  refine (@payoutExpectation_consistent _ _ built [] _ rfl rfl).2
    sampleExpectingOps ?_
  intro call member
  simp only [sampleExpectingOps, List.mem_cons, NodeOp.locally.injEq,
    reduceCtorEq, List.not_mem_nil, or_false] at member
  rcases member with rfl | rfl <;> rfl

end ZanoP2pool
