import ZanoP2pool.Foundation.Counting
import ZanoP2pool.MiningHeaderCommitment
import ZanoP2pool.P2pMiningContextCodec
import ZanoP2pool.P2pNodeSections
import ZanoP2pool.P2pPayoutPolicyLaws
import ZanoP2pool.ShareChainInvariants

namespace ZanoP2pool

open Foundation

/-!
# Bounds of the recovery tables

Each table of historical recovery has its own rule of admission: pending shares are
refused, evidence drops its first key, candidates for a retry drop the oldest one,
and deferred shares stay within the difficulty window.  Registering a candidate
again after a failed retry has no such rule.
-/

namespace P2pNode

/-- The number of shares that may wait for their parents. -/
def deferredLimit (node : P2pNode) : Nat :=
  match node.historicalParams with
  | none => 0
  | some params => params.difficultyWindowShares.toNat

/-- The tables whose bound every section keeps. -/
structure Bounded (node : P2pNode) : Prop where
  pending : node.pendingHistorical.size ≤ kMiningWorkMaxPending
  evidence : node.historicalEvidence.size ≤ kMiningWorkMaxReceived
  deferred : node.deferredHistorical.size ≤ node.deferredLimit

def RetryableBounded (node : P2pNode) : Prop :=
  node.retryableHistorical.size ≤ kMiningWorkMaxReceived

section Updates

variable {node : P2pNode}

theorem Bounded.expire
    (bounded : node.Bounded)
    (now : UInt64) :
    (node.expireHistoricalState now).Bounded where
  pending :=
    le_trans Std.ExtTreeMap.size_filter_le_size bounded.pending
  evidence :=
    le_trans Std.ExtTreeMap.size_filter_le_size bounded.evidence
  deferred :=
    le_trans Std.ExtTreeMap.size_filter_le_size bounded.deferred

theorem Bounded.rememberPending
    (bounded : node.Bounded)
    (peer : P2pHandshake)
    (share : Share)
    (requiredCapability now : UInt64) :
    (node.rememberPendingHistorical peer share requiredCapability
      now).Bounded := by
  have live := bounded.expire now
  unfold rememberPendingHistorical
  simp only
  split_ifs with full
  · exact live
  · refine ⟨?_, live.evidence, live.deferred⟩
    exact le_trans Std.ExtTreeMap.size_insertIfNew_le (not_le.mp full)

/-- Dropping the first key of a table that has one makes room. -/
theorem size_erase_minKey
    {κ α : Type}
    {cmp : κ → κ → Ordering}
    [Std.TransCmp cmp]
    {table : Std.ExtTreeMap κ α cmp}
    {first : κ}
    (found : table.minKey? = some first) :
    (table.erase first).size = table.size - 1 := by
  rw [Std.ExtTreeMap.size_erase,
    if_pos (Std.ExtTreeMap.contains_minKey? found)]

theorem Bounded.rememberEvidence
    (bounded : node.Bounded)
    (key : MiningWorkKey)
    (evidence : HistoricalEvidence)
    (now : UInt64) :
    (node.rememberHistoricalEvidence key evidence now).Bounded := by
  have live := bounded.expire now
  unfold rememberHistoricalEvidence
  simp only
  cases found : (node.expireHistoricalState now).historicalEvidence[key]? with
  | some existing =>
      refine ⟨live.pending, ?_, live.deferred⟩
      simp only
      rw [Std.ExtTreeMap.size_insert,
        if_pos (contains_iff_getElem?.mpr ⟨existing, found⟩)]
      exact live.evidence
  | none =>
      refine ⟨live.pending, ?_, live.deferred⟩
      have within := live.evidence
      refine le_trans Std.ExtTreeMap.size_insert_le ?_
      split_ifs with full
      · cases first : (node.expireHistoricalState
            now).historicalEvidence.minKey? with
        | none =>
            rw [Std.ExtTreeMap.minKey?_eq_none_iff] at first
            rw [first] at full
            exact absurd full (by decide)
        | some key =>
            simp only
            rw [size_erase_minKey first]
            have positive : 0 < kMiningWorkMaxReceived := by decide
            omega
      · exact not_le.mp full

/-- The node with one more deferred share, whose walk takes over its children's. -/
def withDeferred
    (node : P2pNode)
    (candidate : HistoricalCandidate)
    (id : ShareId)
    (now : UInt64) :
    P2pNode :=
  let joined := joinedRoots node.deferredHistorical candidate.peer.nodeId id
  let refreshed := refreshJoined node.deferredHistorical candidate.peer.nodeId
    joined (joined.headD id) now
  { node with
    deferredHistorical := refreshed.insert id {
      share := candidate.share
      candidatePeer := candidate.peer
      evidence := candidate.evidence
      requiredCapability := candidate.requiredCapability
      recoveryRoot := joined.headD id
      lastProgress := now } }

/-- Deferring a share only expires state, or adds the share to the live state. -/
inductive DeferOutcome
    (backend : Backend)
    (candidate : HistoricalCandidate)
    (now : UInt64)
    (node : P2pNode) :
    EStateM.Result Exception P2pNode Bool → Prop where
  | failed (thrown : Exception) :
      DeferOutcome backend candidate now node
        (.error thrown (node.expireHistoricalState now))
  | refused :
      DeferOutcome backend candidate now node
        (.ok false (node.expireHistoricalState now))
  | kept
      (id : ShareId)
      (params : SidechainParameters)
      (identified : shareId backend candidate.share = .ok id)
      (configured :
        (node.expireHistoricalState now).historicalParams = some params)
      (room :
        (node.expireHistoricalState now).deferredHistorical.contains id =
            true ∨
          (node.expireHistoricalState now).deferredHistorical.size <
            params.difficultyWindowShares.toNat) :
      DeferOutcome backend candidate now node
        (.ok true ((node.expireHistoricalState now).withDeferred candidate id
          now))

theorem rememberDeferredHistorical_outcome
    (backend : Backend)
    (candidate : HistoricalCandidate)
    (now : UInt64)
    (node : P2pNode) :
    DeferOutcome backend candidate now node
      (rememberDeferredHistorical backend candidate.share candidate.peer
        candidate.evidence candidate.requiredCapability now node) := by
  unfold rememberDeferredHistorical
  rw [modify_bind_apply]
  split_ifs
  · exact .refused
  cases identified : shareId backend candidate.share with
  | error thrown => exact .failed thrown
  | ok id =>
      rw [bind_of_ok (orThrow_ok _ _), get_bind_apply]
      cases configured : (node.expireHistoricalState now).historicalParams with
      | none => exact .refused
      | some params =>
          simp only
          by_cases full :
              (!(node.expireHistoricalState now).deferredHistorical.contains
                  id) = true ∧
                (node.expireHistoricalState now).deferredHistorical.size ≥
                  params.difficultyWindowShares.toNat
          · rw [if_pos full]
            exact .refused
          · rw [if_neg full, set_bind_apply]
            have room :
                (node.expireHistoricalState
                    now).deferredHistorical.contains id = true ∨
                  (node.expireHistoricalState now).deferredHistorical.size <
                    params.difficultyWindowShares.toNat := by
              by_contra neither
              push Not at neither
              refine full ⟨?_, neither.2⟩
              rw [Bool.not_eq_true']
              exact Bool.eq_false_iff.mpr neither.1
            have kept :=
              @DeferOutcome.kept backend candidate now node id params
                identified configured room
            unfold withDeferred at kept
            simp only at kept
            rw [configured] at kept
            exact kept

/-- Deferring a share stays within the window. -/
theorem Bounded.rememberDeferred
    (bounded : node.Bounded)
    (backend : Backend)
    (candidate : HistoricalCandidate)
    (now : UInt64) :
    (finalState (rememberDeferredHistorical backend candidate.share
      candidate.peer candidate.evidence candidate.requiredCapability now
      node)).Bounded := by
  have live := bounded.expire now
  have outcome := rememberDeferredHistorical_outcome backend candidate now node
  generalize rememberDeferredHistorical backend candidate.share candidate.peer
    candidate.evidence candidate.requiredCapability now node = result
    at outcome ⊢
  cases outcome with
  | failed thrown => exact live
  | refused => exact live
  | kept id params identified configured room =>
      have limit :
          (node.expireHistoricalState now).deferredLimit =
            params.difficultyWindowShares.toNat := by
        unfold deferredLimit
        rw [configured]
      have within := live.deferred
      refine ⟨live.pending, live.evidence, ?_⟩
      change (Std.ExtTreeMap.insert _ id _).size ≤
        (node.expireHistoricalState now).deferredLimit
      unfold refreshJoined
      rw [Std.ExtTreeMap.size_insert, Std.ExtTreeMap.size_map,
        Std.ExtTreeMap.contains_map, limit]
      rw [limit] at within
      split_ifs with known
      · exact within
      · exact room.resolve_left known

end Updates

section Retryable

variable {retryable : ShareMap RetryableHistoricalCandidate}

/-- The oldest candidate is one of the candidates. -/
theorem foldl_olderRetryable_mem
    (first : ShareId × RetryableHistoricalCandidate)
    (rest : List (ShareId × RetryableHistoricalCandidate)) :
    rest.foldl olderRetryable first ∈ first :: rest := by
  induction rest generalizing first with
  | nil => exact List.mem_cons_self
  | cons item rest inductionHypothesis =>
      rw [List.foldl_cons]
      have chosen :
          olderRetryable first item = first ∨
            olderRetryable first item = item := by
        unfold olderRetryable
        split_ifs
        · exact .inr rfl
        · exact .inl rfl
      rcases chosen with same | same <;> rw [same]
      · rcases List.mem_cons.mp (inductionHypothesis first) with
          isFirst | later
        · rw [isFirst]
          exact List.mem_cons_self
        · exact List.mem_cons_of_mem _ (List.mem_cons_of_mem _ later)
      · exact List.mem_cons_of_mem _ (inductionHypothesis item)

/-- Dropping the oldest candidate makes room for one. -/
theorem size_dropOldestRetryable
    (present : retryable.size ≠ 0) :
    (dropOldestRetryable retryable).size = retryable.size - 1 := by
  unfold dropOldestRetryable
  cases listed : retryable.toList with
  | nil =>
      have length := @Std.ExtTreeMap.length_toList _ _ _ retryable _
      rw [listed] at length
      exact absurd length.symm present
  | cons first rest =>
      have member := foldl_olderRetryable_mem first rest
      rw [← listed] at member
      have found :=
        Std.ExtTreeMap.mem_toList_iff_getElem?_eq_some.mp member
      simp only
      rw [Std.ExtTreeMap.size_erase,
        if_pos (contains_iff_getElem?.mpr ⟨_, found⟩)]

/-- Registering a candidate only touches the table of the live state. -/
theorem rememberRetryableHistorical_outcome
    (backend : Backend)
    (candidate : HistoricalCandidate)
    (now : UInt64)
    (node : P2pNode) :
    ∃ table,
      finalState (rememberRetryableHistorical backend candidate.share
          candidate.peer candidate.requiredCapability now node) =
        { node.expireHistoricalState now with retryableHistorical := table } ∧
      (node.RetryableBounded → table.size ≤ kMiningWorkMaxReceived) := by
  have live (bounded : node.RetryableBounded) :
      (node.expireHistoricalState now).retryableHistorical.size ≤
        kMiningWorkMaxReceived :=
    le_trans Std.ExtTreeMap.size_filter_le_size bounded
  unfold rememberRetryableHistorical
  rw [modify_bind_apply]
  split_ifs
  · exact ⟨_, rfl, live⟩
  cases shareId backend candidate.share with
  | error thrown => exact ⟨_, rfl, live⟩
  | ok id =>
      rw [bind_of_ok (orThrow_ok _ _), modify_apply, finalState_ok]
      cases found :
          (node.expireHistoricalState now).retryableHistorical[id]? with
      | some existing =>
          refine ⟨_, rfl, ?_⟩
          intro bounded
          rw [Std.ExtTreeMap.size_insert,
            if_pos (contains_iff_getElem?.mpr ⟨existing, found⟩)]
          exact live bounded
      | none =>
          refine ⟨_, rfl, ?_⟩
          intro bounded
          have within := live bounded
          have positive : 0 < kMiningWorkMaxReceived := by decide
          refine le_trans Std.ExtTreeMap.size_insert_le ?_
          split_ifs with full
          · rw [size_dropOldestRetryable (by omega)]
            omega
          · exact not_le.mp full

end Retryable

section Steps

variable {environment : NodeEnvironment} {message : Message}
variable {first last : P2pNode} {event : NodeEvent}

theorem finalState_crossHistoricalTrust
    (params : SidechainParameters)
    (share : Share)
    (evidence : HistoricalEvidence)
    (observations : List P2pMiningAnchor)
    (node : P2pNode) :
    ∃ trustedWork calls,
      finalState (crossHistoricalTrust environment params share evidence
          observations node) =
        { node.withTrustedWork trustedWork with calls } := by
  unfold crossHistoricalTrust
  rw [finalState_zoom]
  exact ⟨_, _, rfl⟩

/-- Every step of the handler keeps the bounds. -/
theorem Bounded.step
    (bounded : first.Bounded)
    (step : NodeStep environment message first event last) :
    last.Bounded := by
  have ⟨pending, evidence, deferred⟩ := bounded
  cases step with
  | expired => exact bounded.expire message.now
  | rememberedPending share requiredCapability =>
      exact bounded.rememberPending _ _ _ _
  | forgotPending key =>
      exact ⟨le_trans Std.ExtTreeMap.size_erase_le pending, evidence,
        deferred⟩
  | rememberedEvidence key kept => exact bounded.rememberEvidence _ _ _
  | forgotEvidence key =>
      exact ⟨pending, le_trans Std.ExtTreeMap.size_erase_le evidence,
        deferred⟩
  | rememberedRetryable candidate =>
      obtain ⟨table, final, _⟩ := rememberRetryableHistorical_outcome
        environment.backends.hashing candidate message.now first
      rw [final]
      have live := bounded.expire message.now
      exact ⟨live.pending, live.evidence, live.deferred⟩
  | forgotRetryable id => exact ⟨pending, evidence, deferred⟩
  | deferred candidate => exact bounded.rememberDeferred _ _ _
  | undeferred id =>
      exact ⟨pending, evidence,
        le_trans Std.ExtTreeMap.size_erase_le deferred⟩
  | aside => exact ⟨pending, evidence, deferred⟩
  | announced => exact ⟨pending, evidence, deferred⟩
  | crossed params candidate observations configured =>
      obtain ⟨trustedWork, calls, final⟩ :=
        @finalState_crossHistoricalTrust environment params candidate.share
          candidate.evidence observations first
      rw [final]
      exact ⟨pending, evidence, deferred⟩
  | received => exact ⟨pending, evidence, deferred⟩
  | revalidated => exact ⟨pending, evidence, deferred⟩
  | pruned root replayed chain prunedIds found unvalidated ran =>
      unfold afterPrune
      split_ifs <;> exact ⟨pending, evidence, deferred⟩
  | forgotExpected => exact ⟨pending, evidence, deferred⟩

/-- Every step of the handler keeps the bound of the candidates for a retry. -/
theorem RetryableBounded.step
    (bounded : first.RetryableBounded)
    (step : NodeStep environment message first event last) :
    last.RetryableBounded := by
  have live :
      (first.expireHistoricalState message.now).RetryableBounded :=
    le_trans Std.ExtTreeMap.size_filter_le_size bounded
  cases step with
  | expired => exact live
  | rememberedPending share requiredCapability =>
      unfold rememberPendingHistorical
      simp only
      split_ifs <;> exact live
  | forgotPending key => exact bounded
  | rememberedEvidence key evidence =>
      unfold rememberHistoricalEvidence
      simp only
      split <;> exact live
  | forgotEvidence key => exact bounded
  | rememberedRetryable candidate =>
      obtain ⟨table, final, within⟩ := rememberRetryableHistorical_outcome
        environment.backends.hashing candidate message.now first
      rw [final]
      exact within bounded
  | forgotRetryable id =>
      exact le_trans Std.ExtTreeMap.size_erase_le bounded
  | deferred candidate =>
      have outcome := rememberDeferredHistorical_outcome
        environment.backends.hashing candidate message.now first
      generalize rememberDeferredHistorical environment.backends.hashing
        candidate.share candidate.peer candidate.evidence
        candidate.requiredCapability message.now first = result at outcome ⊢
      cases outcome <;> exact live
  | undeferred id => exact bounded
  | aside => exact bounded
  | announced => exact bounded
  | crossed params candidate observations configured =>
      obtain ⟨trustedWork, calls, final⟩ :=
        @finalState_crossHistoricalTrust environment params candidate.share
          candidate.evidence observations first
      rw [final]
      exact bounded
  | received => exact bounded
  | revalidated => exact bounded
  | pruned root replayed chain prunedIds found unvalidated ran =>
      unfold afterPrune
      split_ifs <;> exact bounded
  | forgotExpected => exact bounded

end Steps

end P2pNode

namespace NodeSection

variable {environment : NodeEnvironment} {node : P2pNode}

/-- In-place validation with archived work only changes the chain. -/
theorem finalState_revalidateArchived
    (id : ShareId)
    (context : ShareWorkContext)
    (now : UInt64)
    (mode : ProgPowZContextMode)
    (node : P2pNode) :
    ∃ chain,
      finalState (ZanoP2pool.revalidateArchived environment now mode id context
        node) = node.withChain chain := by
  unfold ZanoP2pool.revalidateArchived
  rw [get_bind_apply]
  cases node.chain.find id with
  | none => exact ⟨node.chain, rfl⟩
  | some current =>
      simp only
      split_ifs
      · exact ⟨node.chain, rfl⟩
      · refine ⟨finalState (ShareChain.revalidateConnectedShare
          environment.backends.hashing id context now mode node.chain), ?_⟩
        rw [← finalState_onNodeChain, bind_apply]
        cases onNodeConsensus (onChain (ShareChain.revalidateConnectedShare
          environment.backends.hashing id context now mode)) node <;> rfl

/-- Every section of recovery keeps the bounds. -/
theorem run_bounded
    {taken : NodeSection}
    (recovery : taken.isRecovery = true)
    (bounded : node.Bounded) :
    (taken.run environment node).Bounded := by
  have ⟨pending, evidence, deferred⟩ := bounded
  cases taken with
  | handler part message pass =>
      obtain ⟨_, trace⟩ := @handler_trace environment part message pass node
      exact trace.preserves (fun _ _ _ step before => before.step step) bounded
  | expire now => exact bounded.expire now
  | restoreRetryable now candidate id =>
      simp only [run, P2pNode.restoreRetryable]
      split_ifs <;> exact ⟨pending, evidence, deferred⟩
  | forgetRetryable id => exact ⟨pending, evidence, deferred⟩
  | reserve key now => exact ⟨pending, evidence, deferred⟩
  | release key => exact ⟨pending, evidence, deferred⟩
  | revalidateArchived id context now mode =>
      obtain ⟨chain, final⟩ := @finalState_revalidateArchived environment id
        context now mode node
      simp only [run]
      rw [final]
      exact ⟨pending, evidence, deferred⟩
  | consult calls => exact ⟨pending, evidence, deferred⟩
  | locally call => cases recovery

/-- A section other than a renewed registration keeps the bound of the candidates. -/
theorem run_retryableBounded
    {taken : NodeSection}
    (recovery : taken.isRecovery = true)
    (registersNot :
      ∀ now candidate id, taken ≠ .restoreRetryable now candidate id)
    (bounded : node.RetryableBounded) :
    (taken.run environment node).RetryableBounded := by
  cases taken with
  | handler part message pass =>
      obtain ⟨_, trace⟩ := @handler_trace environment part message pass node
      exact trace.preserves (fun _ _ _ step before => before.step step) bounded
  | expire now => exact le_trans Std.ExtTreeMap.size_filter_le_size bounded
  | restoreRetryable now candidate id =>
      exact absurd rfl (registersNot now candidate id)
  | forgetRetryable id => exact le_trans Std.ExtTreeMap.size_erase_le bounded
  | reserve key now => exact bounded
  | release key => exact bounded
  | revalidateArchived id context now mode =>
      obtain ⟨chain, final⟩ := @finalState_revalidateArchived environment id
        context now mode node
      simp only [run]
      rw [final]
      exact bounded
  | consult calls => exact bounded
  | locally call => cases recovery

end NodeSection

/-- The candidates of the node after the first sections of a run. -/
def retryableAfter
    (environment : NodeEnvironment)
    (sections : List NodeSection)
    (start : P2pNode)
    (moment : Nat) :
    ShareMap RetryableHistoricalCandidate :=
  (runSections environment (sections.take moment) start).retryableHistorical

/--
Whenever a failed retry registers a live candidate again, every share that is in
the table was there together with the candidate at an earlier moment: no other share
has taken a place since the candidate left.
-/
def RestoresKnown
    (environment : NodeEnvironment)
    (sections : List NodeSection)
    (start : P2pNode) :
    Prop :=
  ∀ (moment : Nat) (now : UInt64) (candidate : RetryableHistoricalCandidate)
    (id : ShareId),
    sections[moment]? = some (.restoreRetryable now candidate id) →
    P2pNode.pastLifetime now candidate.started = false →
      ∃ earlier ≤ moment,
        let known := retryableAfter environment sections start earlier
        known.contains id = true ∧
          ∀ other,
            (retryableAfter environment sections start moment).contains
                other = true →
              known.contains other = true

/-- The node has no historical recovery under way. -/
structure P2pNode.Idle (node : P2pNode) : Prop where
  pending : node.pendingHistorical = ∅
  evidence : node.historicalEvidence = ∅
  deferred : node.deferredHistorical = ∅
  retryable : node.retryableHistorical = ∅

section Runs

variable {environment : NodeEnvironment} {node : P2pNode}

theorem runSections_bounded
    {sections : List NodeSection}
    (recovery : ∀ taken ∈ sections, taken.isRecovery = true)
    (bounded : node.Bounded) :
    (runSections environment sections node).Bounded := by
  induction sections generalizing node with
  | nil => exact bounded
  | cons taken rest inductionHypothesis =>
      obtain ⟨now, later⟩ := List.forall_mem_cons.mp recovery
      exact inductionHypothesis later (NodeSection.run_bounded now bounded)

/-- A registration leaves the table within one that knows all its shares. -/
theorem size_restoreRetryable_le
    {known : ShareMap RetryableHistoricalCandidate}
    {now : UInt64}
    {candidate : RetryableHistoricalCandidate}
    {id : ShareId}
    (isKnown : known.contains id = true)
    (within :
      ∀ other, node.retryableHistorical.contains other = true →
        known.contains other = true) :
    (node.restoreRetryable now candidate id).retryableHistorical.size ≤
      known.size := by
  refine size_le_of_present ?_
  intro other value found
  refine contains_iff_getElem?.mp ?_
  unfold P2pNode.restoreRetryable at found
  split_ifs at found with missing
  · rcases getElem?_insert_iff.mp found with ⟨rfl, _⟩ | ⟨_, before⟩
    · exact isKnown
    · exact within other (contains_iff_getElem?.mpr ⟨value, before⟩)
  · exact within other (contains_iff_getElem?.mpr ⟨value, found⟩)

/-- A run that registers only known candidates again keeps the table bounded. -/
theorem retryableAfter_bounded
    {sections : List NodeSection}
    (recovery : ∀ taken ∈ sections, taken.isRecovery = true)
    (restores : RestoresKnown environment sections node)
    (initially : node.RetryableBounded)
    (moment : Nat) :
    (retryableAfter environment sections node moment).size ≤
      kMiningWorkMaxReceived := by
  induction moment using Nat.strong_induction_on with
  | _ moment inductionHypothesis =>
      cases moment with
      | zero => exact initially
      | succ moment =>
          have before := inductionHypothesis moment (Nat.lt_succ_self moment)
          unfold retryableAfter runSections at before ⊢
          rw [List.take_add_one, List.foldl_append]
          cases found : sections[moment]? with
          | none => exact before
          | some taken =>
              rw [Option.toList_some, List.foldl_cons, List.foldl_nil]
              have recovers := recovery taken (List.mem_of_getElem? found)
              by_cases registers :
                  ∃ now candidate id,
                    taken = .restoreRetryable now candidate id
              swap
              · exact NodeSection.run_retryableBounded recovers
                  (fun now candidate id same =>
                    registers ⟨now, candidate, id, same⟩) before
              obtain ⟨now, candidate, id, rfl⟩ := registers
              by_cases live : P2pNode.pastLifetime now candidate.started = false
              · obtain ⟨earlier, notLater, isKnown, within⟩ :=
                  restores moment now candidate id found live
                exact le_trans (size_restoreRetryable_le isKnown within)
                  (inductionHypothesis earlier (Nat.lt_succ_of_le notLater))
              · simp only [NodeSection.run, P2pNode.restoreRetryable, live]
                exact before

end Runs

/--
In every interleaving of handlers, retries and replay recoveries the tables of
pending shares, evidence and deferred shares stay within their bounds.  The table
of candidates for a retry does when no other share has taken a place in it between
the moment a candidate left it and the moment a failed retry registers the candidate
again.
-/
theorem recoveryTables_bounded
    {environment : NodeEnvironment}
    {start : P2pNode}
    (idle : start.Idle)
    {sections : List NodeSection}
    (recovery : ∀ taken ∈ sections, taken.isRecovery = true) :
    let reached := runSections environment sections start
    reached.Bounded ∧
      (RestoresKnown environment sections start →
        reached.retryableHistorical.size ≤ kMiningWorkMaxReceived) := by
  have initially : start.Bounded := by
    refine ⟨?_, ?_, ?_⟩
    · rw [idle.pending, Std.ExtTreeMap.size_empty]
      exact Nat.zero_le _
    · rw [idle.evidence, Std.ExtTreeMap.size_empty]
      exact Nat.zero_le _
    · rw [idle.deferred, Std.ExtTreeMap.size_empty]
      exact Nat.zero_le _
  have initiallyFew : start.RetryableBounded := by
    unfold P2pNode.RetryableBounded
    rw [idle.retryable, Std.ExtTreeMap.size_empty]
    exact Nat.zero_le _
  refine ⟨runSections_bounded recovery initially, ?_⟩
  intro restores
  have bounded :=
    retryableAfter_bounded recovery restores initiallyFew sections.length
  unfold retryableAfter at bounded
  rwa [List.take_length] at bounded

section Sample

/-- A template of height seven on the block of hash five. -/
def sampleTemplate : List UInt8 :=
  [2] ++ List.replicate 8 0 ++ hashBytes 5 ++ [1, 1, 0] ++
    [4, 1, 0, 7, 0, 0, 6] ++ sampleProofs ++ [0]

/-- Work whose mining header hash is one. -/
def sampleArchived : P2pMiningContextProposal where
  zanoHeight := 7
  prevHash := 5
  networkDifficulty := 2
  blockTemplateBlob := sampleTemplate
  minerTxTgcJson := sampleTgcText 0

/-- A daemon without the work of height seven, failing at one call. -/
def sampleEnvironment (failing : Nat) : NodeEnvironment where
  backends :=
    { hashing := sampleBackend
      curve := sampleCurve
      json := sampleTgcJson
      proofs :=
        { verifyHf6MinerBalanceProof := fun _ _ _ _ _ => true
          verifyHf6MinerRangeProof := fun _ _ _ _ _ => true } }
  sources :=
    { observations := fun call _ =>
        if call = failing then .error (.runtimeError "daemon") else .ok []
      canonicalHeader := fun _ height => .ok { height, hash := 5 }
      historicalPow := fun _ _ => .ok none }
  archive := fun _ _ => .ok (miningContextBytes sampleArchived)
  delivers := fun _ _ _ => true

/-- A root that pays its own miner; its identity is its nonce plus one. -/
def sampleRoot (nonce : UInt64) : Share :=
  { sampleShare 0 0 nonce 1 with
    version := 2
    miningHeaderHash := 1
    minerId := 1
    payout := some { spendPublicKey := 7, viewPublicKey := 7 } }

/-- A share under a parent; its identity is its nonce plus one. -/
def sampleChild (parentId : ShareId) (shareHeight nonce : UInt64) : Share :=
  { sampleShare parentId shareHeight nonce 1 with miningHeaderHash := 1 }

def sampleSyncPeer : P2pHandshake where
  nodeId := 7
  capabilities := kP2pCapabilityShareSync ||| kP2pCapabilityWorkRetrieval

/-- A node that replayed two roots and has their work in its archive. -/
def sampleRecovery : P2pNode where
  consensus := {
    chain := finalState (runOps sampleBackend
      [.addUnchecked (sampleRoot 0), .addUnchecked (sampleRoot 1)]
      sampleStart) }
  workRetrieval := some {
    localWork := (∅ : Std.ExtTreeMap MiningWorkKey Hash256).insert
      { zanoHeight := 7, miningHeaderHash := 1 } 1 }
  historicalParams := some sampleParameters

/-- The response that carries a share. -/
def sampleResponse (share : Share) (now : UInt64) : Message where
  peer := sampleSyncPeer
  envelope :=
    match makeP2pShareResponseEnvelope sampleBackend
        (BitVec.ofNat 256 (share.nonce.toNat + 1)) (some share) with
    | .ok envelope => envelope
    | .error _ => { type := .handshake, payload := [] }
  now
  mode := .light

/-- Eight shares wait for the daemon; the retry of the first one fails late. -/
def sampleRetryOps : List NodeOp :=
  .handle { sampleResponse (sampleRoot 0) 0 with
      envelope := { type := .handshake, payload := [] } } ::
    ((List.range 8).map fun index =>
      .handle (sampleResponse
        (sampleChild 77 1 (UInt64.ofNat (index + 2))) 1)) ++
    [.retryHistoricalPowUnavailable 60 .light]

theorem sampleRecovery_idle : sampleRecovery.Idle :=
  ⟨rfl, rfl, rfl, rfl⟩

/-- A daemon whose chain is replaced before one call and that fails at another. -/
def sampleReorganization (replaced failing : Nat) : NodeEnvironment :=
  let daemon := sampleEnvironment failing
  { daemon with
    sources := { daemon.sources with
      canonicalHeader := fun call height =>
        .ok { height, hash := if call < replaced then 5 else 6 } } }

/--
Two shares wait for the daemon.  The retry of the first one drops it, since the
daemon's chain was replaced, and registers it again, since the daemon then fails.
-/
def sampleRetrySections : List NodeSection :=
  let first : Share := sampleChild 77 1 2
  let second : Share := sampleChild 77 1 3
  let pass : Pass := { followupPeer := sampleSyncPeer.nodeId }
  [ .handler .locked (sampleResponse first 1) pass
  , .handler .locked (sampleResponse second 1) pass
  , .expire 60
  , .handler .locked (sampleResponse first 60) pass
  , .handler .advanceFrontiers (sampleResponse first 60) pass
  , .restoreRetryable 60
      { share := first
        candidatePeer := sampleSyncPeer
        requiredCapability := kP2pCapabilityShareSync
        started := 1 } 3 ]

/-- The dropped candidate comes back to the one that stayed. -/
theorem sampleRetrySections_bounded :
    let environment := sampleReorganization 9 13
    let reached :=
      runSections environment sampleRetrySections sampleRecovery
    (retryableAfter environment sampleRetrySections sampleRecovery 5).keys =
        [4] ∧
      reached.retryableHistorical.keys = [3, 4] ∧
      reached.Bounded ∧
      reached.retryableHistorical.size ≤ kMiningWorkMaxReceived := by
  intro environment reached
  obtain ⟨both, one, known, again⟩ :
      (retryableAfter environment sampleRetrySections sampleRecovery 2).keys =
          [3, 4] ∧
        (retryableAfter environment sampleRetrySections sampleRecovery 5).keys =
          [4] ∧
        (∀ taken ∈ sampleRetrySections, taken.isRecovery = true) ∧
        reached.retryableHistorical.keys = [3, 4] := by
    decide +kernel
  have restores :
      RestoresKnown environment sampleRetrySections sampleRecovery := by
    intro moment now candidate id found live
    have isLast : moment = 5 ∧ id = 3 := by
      rcases moment with _ | _ | _ | _ | _ | _ | moment <;>
        simp_all [sampleRetrySections]
    obtain ⟨rfl, rfl⟩ := isLast
    refine ⟨2, by decide, ?_, ?_⟩
    · rw [Std.ExtTreeMap.contains_iff_mem, ← Std.ExtTreeMap.mem_keys, both]
      decide
    · intro other there
      rw [Std.ExtTreeMap.contains_iff_mem, ← Std.ExtTreeMap.mem_keys]
        at there ⊢
      rw [one, List.mem_singleton] at there
      rw [both, there]
      decide
  obtain ⟨bounded, few⟩ := @recoveryTables_bounded environment _
    sampleRecovery_idle sampleRetrySections known
  exact ⟨one, again, bounded, few restores⟩

/--
Retrying the first of eight candidates lets a replayed share take its place before
the daemon fails for another one; the candidate comes back as the ninth.
-/
theorem retriedCandidate_exceedsBound :
    sampleRecovery.Idle ∧
      (∀ op ∈ sampleRetryOps, op.isRecovery = true) ∧
      (attemptNodeOps (sampleEnvironment 53) sampleRetryOps
        sampleRecovery).retryableHistorical.size =
          kMiningWorkMaxReceived + 1 :=
  ⟨sampleRecovery_idle, by decide +kernel, by decide +kernel⟩

end Sample

end ZanoP2pool
