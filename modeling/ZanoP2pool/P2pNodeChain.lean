import ZanoP2pool.P2pNodeCaches
import ZanoP2pool.ReconciliationExact

namespace ZanoP2pool

open Foundation

/-!
# The chain under the operations of a node

Every section changes the chain by calls of the chain itself.  All of them but a
prune keep what is connected; a prune inside the node is followed by the reset of
the expected payout.
-/

namespace ShareChain

variable {backend : Backend} {chain next : ShareChain}

/-- Connected shares stay, and so does validated ancestry. -/
def Extends (chain next : ShareChain) : Prop :=
  ∀ ⦃id : ShareId⦄ ⦃entry : ConnectedShare⦄,
    chain.connected[id]? = some entry →
      ∃ kept,
        next.connected[id]? = some kept ∧ kept.share = entry.share ∧
          (entry.validatedAncestry = true → kept.validatedAncestry = true)

theorem Extends.refl
    (chain : ShareChain) :
    Extends chain chain :=
  fun _ entry found => ⟨entry, found, rfl, id⟩

theorem Extends.trans
    {last : ShareChain}
    (before : Extends chain next)
    (after : Extends next last) :
    Extends chain last := by
  intro id entry found
  obtain ⟨middle, foundMiddle, sameShare, stays⟩ := before found
  obtain ⟨kept, foundLast, sameLast, staysLast⟩ := after foundMiddle
  exact ⟨kept, foundLast, sameLast.trans sameShare,
    fun validated => staysLast (stays validated)⟩

/-- What is connected stays connected. -/
theorem Extends.contains
    (grows : Extends chain next)
    {id : ShareId}
    (present : chain.contains id = true) :
    next.contains id = true := by
  obtain ⟨entry, found⟩ := contains_iff_getElem?.mp present
  obtain ⟨kept, foundNext, _⟩ := grows found
  exact contains_iff_getElem?.mpr ⟨kept, foundNext⟩

theorem Growth.extends
    {incoming : Option OrphanShare}
    (growth : Growth backend incoming chain next) :
    Extends chain next := by
  cases growth with
  | attach _ _ fresh _ _ =>
      intro id entry found
      refine ⟨entry, ?_, rfl, fun validated => validated⟩
      refine getElem?_insert_iff.mpr (.inr ⟨?_, found⟩)
      rintro rfl
      rw [fresh] at found
      cases found
  | buffer _ _ _ _ _ _ => exact .refl chain
  | discard => exact .refl chain
  | unindex => exact .refl chain

theorem Growths.extends
    {incoming : Option OrphanShare}
    (growths : Growths backend incoming chain next) :
    Extends chain next := by
  induction growths with
  | refl => exact .refl chain
  | tail _ growth inductionHypothesis =>
      exact inductionHypothesis.trans growth.extends

theorem RevalidateOutcome.extends
    {id : ShareId}
    {result : EStateM.Result Exception ShareChain RevalidateShareResult}
    (outcome : RevalidateOutcome chain id result) :
    Extends chain (finalState result) := by
  cases outcome with
  | threw thrown => exact .refl chain
  | kept _ => exact .refl chain
  | upgraded found unvalidated _ _ _ _ _ =>
      intro other entry present
      by_cases same : other = id
      · subst same
        rw [found] at present
        cases present
        exact ⟨_, getElem?_insert_iff.mpr (.inl ⟨rfl, rfl⟩), rfl,
          fun _ => rfl⟩
      · exact ⟨entry, getElem?_insert_iff.mpr (.inr ⟨same, present⟩), rfl,
          fun validated => validated⟩

theorem Restored.extends
    {records : List ReplayValidationRecord}
    (restored : Restored chain records next) :
    Extends chain next := by
  intro id entry found
  refine ⟨restoredEntry records id entry, ?_, ?_, ?_⟩
  · rw [restored.connected, found]
    rfl
  · unfold restoredEntry
    split_ifs
    · rfl
    · split <;> rfl
  · intro validated
    unfold restoredEntry
    rw [if_pos validated]
    exact validated

/-- The chain is sound and its flags mean what they say. -/
def Upright (backend : Backend) (chain : ShareChain) : Prop :=
  Sound backend chain ∧ Trusted chain

end ShareChain

namespace ChainOp

open ShareChain

variable {backend : Backend} {chain : ShareChain}

/-- The one call that takes connected shares away. -/
def isPrune : ChainOp → Bool
  | .prune _ => true
  | _ => false

/-- A call that is no prune keeps what is connected. -/
theorem run_extends
    (upright : Upright backend chain)
    {op : ChainOp}
    (keeps : op.isPrune = false) :
    Extends chain (finalState (op.run backend chain)) := by
  obtain ⟨sound, trusted⟩ := upright
  have discards {α : Type} (action : ChainM α) :
      finalState ((do let _ ← action : ChainM Unit) chain) =
        finalState (action chain) := by
    rw [bind_apply]
    cases action chain <;> rfl
  cases op with
  | submit share trustedContext now mode =>
      rw [run, discards]
      rcases submitShare_outcome sound.standing share trustedContext now mode with
        ⟨record, _, outcome⟩ | ⟨_, unchanged⟩
      · exact (outcome.growths sound).extends
      · rcases unchanged with ⟨thrown, same⟩ | ⟨value, same, _⟩ <;>
          · rw [same]
            exact .refl chain
  | addUnchecked share =>
      rw [run, discards]
      rcases addShareUnchecked_outcome sound.standing share with
        ⟨id, _, outcome⟩ | ⟨thrown, _, same⟩
      · exact (outcome.growths sound).extends
      · rw [same]
        exact .refl chain
  | revalidate id trustedContext now mode =>
      rw [run, discards]
      exact (revalidateConnectedShare_outcome sound id trustedContext now
        mode).extends
  | restore records =>
      rw [run, discards]
      by_cases accepted : RestoreAccepted chain records
      · obtain ⟨count, final, ran, installed⟩ :=
          restoreReplayValidation_ok sound trusted accepted
        rw [ran]
        exact installed.restored.extends
      · by_cases empty : records = []
        · subst records
          exact .refl chain
        · obtain ⟨thrown, ran⟩ :=
            restoreReplayValidation_error sound trusted empty accepted
          rw [ran]
          exact .refl chain
  | prune rootId => cases keeps

/-- Every call keeps the chain upright. -/
theorem run_upright
    (upright : Upright backend chain)
    (op : ChainOp) :
    Upright backend (finalState (op.run backend chain)) := by
  have kept := @attemptOps_sound backend [op] chain upright.1 upright.2
  exact ⟨kept.1, kept.2.1⟩

end ChainOp

section Steps

variable {environment : NodeEnvironment} {message : Message}
variable {first last : P2pNode} {event : NodeEvent}

/-- What a step, or a section, does to the chain and the expected payout. -/
inductive ChainEffect
    (backend : Backend)
    (first last : P2pNode) :
    Prop where
  | kept
      (chain : last.chain = first.chain)
      (expected :
        last.consensus.expected = first.consensus.expected ∨
          last.consensus.expected = {})
  | called
      (op : ChainOp)
      (keeps : op.isPrune = false)
      (chain : last.chain = finalState (op.run backend first.chain))
      (expected : last.consensus.expected = first.consensus.expected)
  | pruned
      (root : ShareId)
      (prunedIds : List ShareId)
      (present : first.chain.contains root = true)
      (ran :
        ShareChain.pruneConnectedSubtreeIds root first.chain =
          .ok prunedIds last.chain)
      (expected :
        prunedIds = [] ∨ last.consensus.expected = {})

/-- Receiving a share is a submission under its trusted context, or nothing. -/
theorem finalState_receiveShare
    (backend : Backend)
    (trustedWork : P2pTrustedWorkRegistry)
    (peerCapabilities requiredCapability : UInt64)
    (share : Share)
    (now : UInt64)
    (mode : ProgPowZContextMode)
    (chain : ShareChain) :
    let received := finalState (receiveShare backend trustedWork
      peerCapabilities requiredCapability share now mode chain)
    received = chain ∨
      ∃ trusted,
        trustedWork.find share.zanoHeight share.miningHeaderHash
            share.parentId = some trusted ∧
          received = finalState ((ChainOp.submit share trusted now mode).run
            backend chain) := by
  unfold receiveShare
  cases shareId backend share with
  | error thrown => exact .inl rfl
  | ok id =>
      rw [bind_of_ok (orThrow_ok _ _), get_bind_apply]
      simp only
      by_cases incapable :
          requiredCapability = 0 ∨
            peerCapabilities &&& requiredCapability ≠ requiredCapability
      · rw [if_pos incapable]
        exact .inl rfl
      rw [if_neg incapable]
      cases chain.find id with
      | some connected =>
          simp only
          split_ifs <;> exact .inl rfl
      | none =>
          simp only
          by_cases waiting : chain.isOrphan id = true
          · rw [if_pos waiting]
            exact .inl rfl
          rw [if_neg waiting]
          cases found : trustedWork.find share.zanoHeight
              share.miningHeaderHash share.parentId with
          | none => exact .inl rfl
          | some trusted =>
              right
              refine ⟨trusted, rfl, ?_⟩
              simp only [ChainOp.run, bind_apply]
              cases ShareChain.submitShare backend share trusted now mode
                  chain with
              | error thrown stopped => rfl
              | ok result added =>
                  simp only
                  cases result.disposition <;> rfl

theorem NodeStep.chainEffect
    (step : NodeStep environment message first event last) :
    ChainEffect environment.backends.hashing first last := by
  cases step with
  | expired => exact .kept rfl (.inl rfl)
  | rememberedPending share requiredCapability =>
      unfold P2pNode.rememberPendingHistorical
      simp only
      split_ifs <;> exact .kept rfl (.inl rfl)
  | forgotPending key => exact .kept rfl (.inl rfl)
  | rememberedEvidence key evidence =>
      unfold P2pNode.rememberHistoricalEvidence
      simp only
      split <;> exact .kept rfl (.inl rfl)
  | forgotEvidence key => exact .kept rfl (.inl rfl)
  | rememberedRetryable candidate =>
      obtain ⟨table, final, _⟩ := P2pNode.rememberRetryableHistorical_outcome
        environment.backends.hashing candidate message.now first
      rw [final]
      exact .kept rfl (.inl rfl)
  | forgotRetryable id => exact .kept rfl (.inl rfl)
  | deferred candidate =>
      have outcome := P2pNode.rememberDeferredHistorical_outcome
        environment.backends.hashing candidate message.now first
      generalize P2pNode.rememberDeferredHistorical
        environment.backends.hashing candidate.share candidate.peer
        candidate.evidence candidate.requiredCapability message.now first =
          result at outcome ⊢
      cases outcome <;> exact .kept rfl (.inl rfl)
  | undeferred id => exact .kept rfl (.inl rfl)
  | aside => exact .kept rfl (.inl rfl)
  | announced => exact .kept rfl (.inl rfl)
  | crossed params candidate observations configured =>
      obtain ⟨trustedWork, calls, final⟩ :=
        @P2pNode.finalState_crossHistoricalTrust environment params
          candidate.share candidate.evidence observations first
      rw [final]
      exact .kept rfl (.inl rfl)
  | received peer share requiredCapability =>
      rcases finalState_receiveShare environment.backends.hashing
          first.trustedWork peer.capabilities requiredCapability share
          message.now message.mode first.chain with
        unchanged | ⟨trusted, _, submitted⟩
      · rw [unchanged]
        exact .kept rfl (.inl rfl)
      · exact .called (.submit share trusted message.now message.mode) rfl
          submitted rfl
  | revalidated share id trusted identified registered =>
      refine .called (.revalidate id trusted message.now message.mode) rfl
        ?_ rfl
      simp only [ChainOp.run, bind_apply]
      change finalState _ = _
      cases ShareChain.revalidateConnectedShare environment.backends.hashing
        id trusted message.now message.mode first.chain <;> rfl
  | pruned root replayed chain prunedIds found unvalidated ran =>
      have present : first.chain.contains root = true :=
        contains_iff_getElem?.mpr ⟨replayed, found⟩
      unfold P2pNode.afterPrune
      split_ifs with nothing
      · exact .pruned root prunedIds present ran
          (.inl (List.isEmpty_iff.mp nothing))
      · exact .pruned root prunedIds present ran (.inr rfl)
  | forgotExpected => exact .kept rfl (.inr rfl)

/-- In-place validation with archived work is a call of the chain, or nothing. -/
theorem revalidateArchived_chainEffect
    (id : ShareId)
    (context : ShareWorkContext)
    (now : UInt64)
    (mode : ProgPowZContextMode)
    (node : P2pNode) :
    ChainEffect environment.backends.hashing node
      ((NodeSection.revalidateArchived id context now mode).run environment
        node) := by
  simp only [NodeSection.run, revalidateArchived]
  rw [get_bind_apply]
  cases node.chain.find id with
  | none => exact .kept rfl (.inl rfl)
  | some current =>
      simp only
      split_ifs
      · exact .kept rfl (.inl rfl)
      · have final :
            finalState ((do
              let revalidated ← onNodeConsensus (onChain
                (ShareChain.revalidateConnectedShare
                  environment.backends.hashing id context now mode))
              return some revalidated.status : NodeM _) node) =
              node.withChain (finalState (ShareChain.revalidateConnectedShare
                environment.backends.hashing id context now mode
                node.chain)) := by
          rw [← finalState_onNodeChain, bind_apply]
          cases onNodeConsensus (onChain (ShareChain.revalidateConnectedShare
            environment.backends.hashing id context now mode)) node <;> rfl
        rw [final]
        refine .called (.revalidate id context now mode) rfl ?_ rfl
        simp only [ChainOp.run, bind_apply]
        change finalState _ = _
        cases ShareChain.revalidateConnectedShare
          environment.backends.hashing id context now mode node.chain <;> rfl

end Steps

namespace ShareChain

variable {backend : Backend} {chain : ShareChain}

/-- A prune of a connected root keeps the chain upright and reports the root. -/
theorem pruneConnectedSubtreeIds_reports
    (upright : Upright backend chain)
    {root : ShareId}
    {prunedIds : List ShareId}
    {pruned : ShareChain}
    (ran :
      pruneConnectedSubtreeIds root chain = .ok prunedIds pruned) :
    Upright backend pruned ∧
      (prunedIds = [] → pruned = chain) ∧
      (chain.contains root = true → prunedIds ≠ []) := by
  have kept := (ChainOp.prune root).run_upright upright
  simp only [ChainOp.run, bind_apply, ran] at kept
  refine ⟨kept, ?_⟩
  have outcome := pruneConnectedSubtreeIds_outcome upright.1 root
  rw [ran] at outcome
  cases outcome with
  | absent missing =>
      refine ⟨fun _ => rfl, ?_⟩
      intro present
      rw [missing] at present
      cases present
  | removed present member retains best =>
      have listed :=
        (List.perm_insertionSort (· ≤ ·) _).mem_iff.mpr member
      have nonempty := List.ne_nil_of_mem listed
      exact ⟨fun empty => absurd empty nonempty, fun _ => nonempty⟩

/-- Pruning stale shares returns, and a count of zero leaves the chain alone. -/
theorem pruneStale_returns
    (upright : Upright backend chain)
    (stale : Share → Bool)
    (ids : List ShareId) :
    ∃ count pruned,
      pruneStale stale ids chain = .ok count pruned ∧
        Upright backend pruned ∧ (count = 0 → pruned = chain) := by
  induction ids generalizing chain with
  | nil => exact ⟨0, chain, rfl, upright, fun _ => rfl⟩
  | cons id rest inductionHypothesis =>
      unfold pruneStale
      rw [get_bind_apply]
      cases found : chain.find id with
      | none => exact inductionHypothesis upright
      | some connected =>
          simp only
          split_ifs
          · obtain ⟨prunedIds, first, ran⟩ :=
              pruneConnectedSubtreeIds_ok chain id
            obtain ⟨firstUpright, _, reports⟩ :=
              pruneConnectedSubtreeIds_reports upright ran
            obtain ⟨count, final, ranRest, finalUpright, _⟩ :=
              inductionHypothesis firstUpright
            refine ⟨prunedIds.length + count, final, ?_, finalUpright, ?_⟩
            · rw [bind_of_ok ran, bind_of_ok ranRest]
              rfl
            · intro nothing
              have isNil : prunedIds = [] :=
                List.eq_nil_of_length_eq_zero (by omega)
              have present : chain.contains id = true :=
                contains_iff_getElem?.mpr ⟨connected, found⟩
              exact absurd isNil (reports present)
          · exact inductionHypothesis upright

end ShareChain

/-- A reconciliation returns; it keeps the chain or resets the expectation. -/
theorem reconcile_returns
    {backend : Backend}
    {state : ConsensusState}
    (upright : state.chain.Upright backend)
    (stale : P2pTrustedWorkRegistry → Share → Bool)
    (revoke : P2pTrustedWorkRegistry → Nat × P2pTrustedWorkRegistry)
    {resets : P2pCanonicalReconciliationResult → Bool}
    (resetting :
      ∀ result, result.prunedConnectedShares ≠ 0 → resets result = true) :
    ∃ result final,
      reconcile stale revoke resets state = .ok result final ∧
        final.chain.Upright backend ∧
        ((final.chain = state.chain ∧ final.expected = state.expected) ∨
          final.expected = {}) := by
  obtain ⟨count, pruned, ran, prunedUpright, unchanged⟩ :=
    ShareChain.pruneStale_returns upright (stale state.trustedWork)
      state.chain.pruneOrder
  have onState :
      onChain (ShareChain.pruneStale (stale state.trustedWork)
          state.chain.pruneOrder) state =
        .ok count { state with chain := pruned } := by
    unfold onChain
    rw [ran]
  unfold reconcile
  rw [get_bind_apply, bind_of_ok onState, modify_bind_apply]
  refine ⟨_, _, rfl, prunedUpright, ?_⟩
  by_cases nothing : count = 0
  · by_cases reset :
        resets {
          prunedConnectedShares := count
          revokedTrustedWork := (revoke state.trustedWork).1 } = true
    · right
      simp only [reset]
      rfl
    · left
      refine ⟨unchanged nothing, ?_⟩
      simp only [Bool.not_eq_true] at reset
      simp only [reset]
      rfl
  · right
    simp only [resetting { prunedConnectedShares := count
                           revokedTrustedWork := _ } nothing]
    rfl

end ZanoP2pool
