import ZanoP2pool.ShareChainInvariants

namespace ZanoP2pool

open Foundation

/-!
# Rules committed in the sidechain parameters

A chain built from parameters copies the version range and the retarget values
into its policy, and takes the two timestamp bounds from constants.  Where the
committed bounds are these constants, every rule is the committed one, on both
paths into the chain.
-/

/-- The arguments of one submission. -/
structure SubmitCall where
  share : Share
  trustedContext : ShareWorkContext
  now : UInt64
  mode : ProgPowZContextMode

/-- The call a submission stands for. -/
def SubmitCall.op (submission : SubmitCall) : ChainOp :=
  .submit submission.share submission.trustedContext submission.now
    submission.mode

/-- Submit in order, going on with the chain an exception leaves. -/
def submitAll
    (backend : Backend)
    (submissions : List SubmitCall)
    (chain : ShareChain) :
    ShareChain :=
  attemptOps backend (submissions.map SubmitCall.op) chain

namespace ShareChain

variable {backend : Backend} {chain next : ShareChain}

/-- A submission whose timestamp is within a bound of its time of arrival. -/
def TimelySubmission
    (submissions : List SubmitCall)
    (maxFutureSeconds : UInt64)
    (share : Share) :
    Prop :=
  ∃ submission ∈ submissions,
    submission.share = share ∧
    share.timestamp.toNat ≤ submission.now.toNat + maxFutureSeconds.toNat

/-- Every rule a chain applies is the one its parameters commit to. -/
structure ParametersEnforced
    (backend : Backend)
    (params : SidechainParameters)
    (submissions : List SubmitCall)
    (chain : ShareChain) :
    Prop where
  timely :
    ∀ ⦃id : ShareId⦄ ⦃entry : ConnectedShare⦄,
      chain.connected[id]? = some entry →
        TimelySubmission submissions params.maxFutureSeconds entry.share
  backstep :
    ∀ ⦃id : ShareId⦄ ⦃entry parent : ConnectedShare⦄,
      chain.connected[id]? = some entry →
      entry.share.parentId ≠ 0 →
      chain.connected[entry.share.parentId]? = some parent →
        parent.share.timestamp.toNat ≤
          entry.share.timestamp.toNat + params.maxParentBackstepSeconds.toNat
  version :
    ∀ ⦃id : ShareId⦄ ⦃entry : ConnectedShare⦄,
      chain.connected[id]? = some entry →
        params.minimumShareVersion ≤ entry.share.version ∧
          entry.share.version ≤ params.maximumShareVersion
  difficulty :
    ∀ ⦃id : ShareId⦄ ⦃entry : ConnectedShare⦄,
      chain.connected[id]? = some entry →
        ∃ branch,
          Branch chain.connected entry.share.parentId branch ∧
          calculateNextSidechainDifficulty
              ((branchSamples branch).take
                params.difficultyWindowShares.toNat)
              params.targetShareSeconds params.minimumShareDifficulty
              params.difficultyWindowShares entry.share.networkDifficulty =
            .ok entry.share.shareDifficulty
  futureRefusals :
    ∀ ⦃submission : SubmitCall⦄ ⦃result : AddShareResult⦄
        ⦃after : ShareChain⦄,
      submitShare backend submission.share submission.trustedContext
          submission.now submission.mode chain = .ok result after →
      result.rejectReason = .timestampTooFarFuture →
        submission.now.toNat + params.maxFutureSeconds.toNat <
          submission.share.timestamp.toNat
  backstepRefusals :
    ∀ ⦃submission : SubmitCall⦄ ⦃result : AddShareResult⦄
        ⦃after : ShareChain⦄,
      submitShare backend submission.share submission.trustedContext
          submission.now submission.mode chain = .ok result after →
      result.rejectReason = .timestampBeforeParentTolerance →
        ∃ parent,
          chain.connected[submission.share.parentId]? = some parent ∧
          submission.share.timestamp.toNat +
              params.maxParentBackstepSeconds.toNat <
            parent.share.timestamp.toNat

section Timestamps

variable {share parent : Share} {now : UInt64}

/-- A share is too far in the future beyond the constant bound. -/
theorem absoluteTimestamp_iff :
    absoluteTimestampRejectReason share now = .timestampTooFarFuture ↔
      now.toNat + kShareMaxFutureSeconds.toNat < share.timestamp.toNat := by
  unfold absoluteTimestampRejectReason
  by_cases later : share.timestamp > now
  · have ordered := UInt64.lt_iff_toNat_lt.mp later
    simp only [later, true_and, gt_iff_lt, UInt64.lt_iff_toNat_lt,
      UInt64.toNat_sub_of_le _ _ (UInt64.le_of_lt later)]
    split_ifs with apart
    · exact iff_of_true rfl (by omega)
    · exact iff_of_false (by simp) (by omega)
  · rw [if_neg (fun both => later both.1)]
    rw [gt_iff_lt, UInt64.lt_iff_toNat_lt] at later
    exact iff_of_false (by simp) (by omega)

/-- A share that is not too far in the future is within the constant bound. -/
theorem absoluteTimestamp_none
    (passed : absoluteTimestampRejectReason share now = .none) :
    share.timestamp.toNat ≤ now.toNat + kShareMaxFutureSeconds.toNat := by
  by_contra beyond
  rw [absoluteTimestamp_iff.mpr (by omega)] at passed
  cases passed

/-- A share is too old for its parent beyond the constant bound. -/
theorem parentTimestamp_iff :
    parentTimestampRejectReason share parent =
        .timestampBeforeParentTolerance ↔
      share.timestamp.toNat + kShareMaxParentBackstepSeconds.toNat <
        parent.timestamp.toNat := by
  unfold parentTimestampRejectReason
  by_cases newer : share.timestamp ≥ parent.timestamp
  · rw [if_pos newer]
    have ordered := UInt64.le_iff_toNat_le.mp newer
    exact iff_of_false (by simp) (by omega)
  · rw [if_neg newer]
    have older := UInt64.le_of_lt (UInt64.not_le.mp newer)
    have ordered := UInt64.le_iff_toNat_le.mp older
    simp only [gt_iff_lt, UInt64.lt_iff_toNat_lt,
      UInt64.toNat_sub_of_le _ _ older]
    split_ifs with apart
    · exact iff_of_true rfl (by omega)
    · exact iff_of_false (by simp) (by omega)

end Timestamps

section Reasons

variable {share : Share} {branch : List Share} {reason : ShareRejectReason}

/-- The parent link is refused for height or for age. -/
theorem parentLink_cases
    (share parent : Share) :
    parentLinkRejectReason share parent = .none ∨
      parentLinkRejectReason share parent = .parentHeightMismatch ∨
      (parentLinkRejectReason share parent =
          .timestampBeforeParentTolerance ∧
        parentTimestampRejectReason share parent =
          .timestampBeforeParentTolerance) := by
  unfold parentLinkRejectReason parentTimestampRejectReason
  split_ifs <;> simp

/-- A share is refused for its difficulty by one reason. -/
theorem branchDifficulty_cases
    {policy : Option DifficultyPolicy}
    (judged : branchDifficultyRejectReason policy branch share = .ok reason) :
    reason = .none ∨ reason = .unexpectedShareDifficulty := by
  unfold branchDifficultyRejectReason at judged
  cases policy with
  | none =>
      cases judged
      exact .inl rfl
  | some policy =>
      obtain ⟨expected, _, compared⟩ := except_bind_eq_ok.mp judged
      cases compared
      split_ifs
      · exact .inl rfl
      · exact .inr rfl

/-- The rules on a branch refuse for a timestamp only at the link to the parent. -/
theorem branchVerdict_reason
    {policy : Option DifficultyPolicy}
    {enforce : Bool}
    (judged : branchVerdict policy branch share enforce = .ok reason) :
    reason ≠ .timestampTooFarFuture ∧
      (reason = .timestampBeforeParentTolerance →
        branchLinkRejectReason share branch =
          .timestampBeforeParentTolerance) := by
  unfold branchVerdict at judged
  by_cases linked : branchLinkRejectReason share branch = .none
  · simp only [linked, ne_eq, not_true_eq_false, if_false] at judged
    cases enforce with
    | true =>
        obtain ⟨difficultyReason, checked, judged⟩ :=
          except_bind_eq_ok.mp judged
        rcases branchDifficulty_cases checked with rfl | rfl
        · cases judged
          split_ifs <;> simp
        · cases judged
          simp
    | false =>
        cases judged
        split_ifs <;> simp
  · rw [if_pos linked] at judged
    cases judged
    cases branch with
    | nil => exact absurd rfl linked
    | cons parent rest =>
        refine ⟨?_, id⟩
        rcases parentLink_cases share parent with same | same | ⟨same, _⟩ <;>
          rw [branchLinkRejectReason, same] <;> simp

/-- What a timestamp refusal of a submission says about it. -/
structure TimestampRefusal
    (chain : ShareChain)
    (share : Share)
    (now : UInt64)
    (reason : ShareRejectReason) :
    Prop where
  future :
    reason = .timestampTooFarFuture →
      absoluteTimestampRejectReason share now = .timestampTooFarFuture
  backstep :
    reason = .timestampBeforeParentTolerance →
      ∃ parent,
        chain.connected[share.parentId]? = some parent ∧
        parentTimestampRejectReason share parent.share =
          .timestampBeforeParentTolerance

/-- Other reasons say nothing about timestamps. -/
theorem TimestampRefusal.of_other
    {now : UInt64}
    (notFuture : reason ≠ .timestampTooFarFuture)
    (notBackstep : reason ≠ .timestampBeforeParentTolerance) :
    TimestampRefusal chain share now reason :=
  ⟨fun same => absurd same notFuture, fun same => absurd same notBackstep⟩

/-- The structural checks do not look at timestamps. -/
theorem structuralRejectReason_other
    (policy : Option DifficultyPolicy)
    (share : Share) :
    structuralRejectReason policy share ≠ .timestampTooFarFuture ∧
      structuralRejectReason policy share ≠
        .timestampBeforeParentTolerance := by
  unfold structuralRejectReason
  cases policy with
  | none =>
      dsimp only
      split_ifs <;> simp
  | some policy =>
      dsimp only
      split_ifs <;> simp

/-- An insertion refuses for a timestamp only at the link to the parent. -/
theorem AddOutcome.timestampRefusal
    {record : OrphanShare}
    {now : UInt64}
    {result : AddShareResult}
    (outcome : AddOutcome backend chain record (.ok result next)) :
    TimestampRefusal chain record.share now result.rejectReason := by
  generalize ended : EStateM.Result.ok result next = final at outcome
  cases outcome with
  | duplicate _ =>
      cases ended
      exact .of_other (by simp) (by simp)
  | malformed _ _ structural _ =>
      cases ended
      subst structural
      obtain ⟨notFuture, notBackstep⟩ :=
        structuralRejectReason_other chain.difficultyPolicy record.share
      exact .of_other notFuture notBackstep
  | buffered _ _ _ _ _ =>
      cases ended
      exact .of_other (by simp) (by simp)
  | threw _ _ => cases ended
  | refused _ _ _ isBranch judged _ =>
      cases ended
      obtain ⟨notFuture, linked⟩ := branchVerdict_reason judged
      refine ⟨fun same => absurd same notFuture, ?_⟩
      intro tooOld
      have refused := linked tooOld
      rcases connectParent_eq isBranch with
        ⟨_, rfl, _⟩ | ⟨parent, rest, _, found, rfl, _, _⟩
      · cases refused
      · refine ⟨parent, found, ?_⟩
        rcases parentLink_cases record.share parent.share with
          same | same | ⟨_, age⟩
        · rw [branchLinkRejectReason, same] at refused
          cases refused
        · rw [branchLinkRejectReason, same] at refused
          cases refused
        · exact age
  | connected _ _ _ _ _ _ =>
      cases ended
      exact .of_other (by simp [connectedResult]) (by simp [connectedResult])
  | interrupted _ _ _ _ _ _ => cases ended

/-- The link of a submission to its parent is refused for height or for age. -/
theorem submittedLink_timestampRefusal
    (now : UInt64) :
    TimestampRefusal chain share now
      (chain.submittedLinkRejectReason share) := by
  unfold submittedLinkRejectReason
  split
  · exact .of_other (by simp) (by simp)
  cases found : chain.find share.parentId with
  | none => exact .of_other (by simp) (by simp)
  | some parent =>
      dsimp only
      rcases parentLink_cases share parent.share with
        same | same | ⟨same, age⟩
      · rw [same]
        exact .of_other (by simp) (by simp)
      · rw [same]
        exact .of_other (by simp) (by simp)
      · rw [same]
        exact ⟨nofun, fun _ => ⟨parent, found, age⟩⟩

/-- The difficulty rule of a submission does not look at its timestamp. -/
theorem expectedDifficulty_timestampRefusal
    {now : UInt64}
    (judged : chain.expectedDifficultyRejectReason share = .ok reason) :
    TimestampRefusal chain share now reason := by
  unfold expectedDifficultyRejectReason at judged
  split at judged
  · cases judged
    exact .of_other (by simp) (by simp)
  split at judged
  · cases judged
    exact .of_other (by simp) (by simp)
  obtain ⟨expected, _, compared⟩ := except_bind_eq_ok.mp judged
  cases compared
  split_ifs <;> exact .of_other (by simp) (by simp)

/-- The last part of a submission refuses for a timestamp only at the link. -/
theorem submitWithWork_timestampRefusal
    (sound : Sound backend chain)
    {id : ShareId}
    (keyed : shareId backend share = .ok id)
    {trustedContext : ShareWorkContext}
    {now : UInt64}
    {mode : ProgPowZContextMode}
    {result : AddShareResult}
    (worked :
      submitWithWork backend share id trustedContext mode chain =
        .ok result next) :
    TimestampRefusal chain share now result.rejectReason := by
  unfold submitWithWork at worked
  split at worked
  · cases worked
    exact .of_other (by simp) (by simp)
  obtain ⟨validation, middle, evaluated, judged⟩ := bind_eq_ok.mp worked
  obtain ⟨_, same⟩ := orThrow_eq_ok.mp evaluated
  rw [same] at judged
  split at judged
  · cases judged
    exact .of_other (by simp) (by simp)
  rw [get_bind_apply] at judged
  have outcome :=
    @addPrevalidatedShare_outcome backend chain
      (submissionRecord chain.difficultyPolicy share id validation) keyed
      sound.standing
  rw [show addPrevalidatedShare backend
      (submissionRecord chain.difficultyPolicy share id validation).share
      (submissionRecord chain.difficultyPolicy share id
        validation).powValidation
      (submissionRecord chain.difficultyPolicy share id
        validation).enforceSidechainDifficulty chain = .ok result next
    from judged] at outcome
  exact outcome.timestampRefusal

/-- A submission is refused for a timestamp by the constant bounds. -/
theorem submitShare_timestampRefusal
    (sound : Sound backend chain)
    {trustedContext : ShareWorkContext}
    {now : UInt64}
    {mode : ProgPowZContextMode}
    {result : AddShareResult}
    (submitted :
      submitShare backend share trustedContext now mode chain =
        .ok result next) :
    TimestampRefusal chain share now result.rejectReason := by
  unfold submitShare at submitted
  obtain ⟨id, middle, keyed, judged⟩ := bind_eq_ok.mp submitted
  obtain ⟨isId, same⟩ := orThrow_eq_ok.mp keyed
  rw [same, get_bind_apply] at judged
  split at judged
  · cases judged
    exact .of_other (by simp) (by simp)
  by_cases structural :
      structuralRejectReason chain.difficultyPolicy share = .none
  swap
  · simp only [structural, ne_eq, not_false_eq_true, if_true] at judged
    cases judged
    obtain ⟨notFuture, notBackstep⟩ :=
      structuralRejectReason_other chain.difficultyPolicy share
    exact .of_other notFuture notBackstep
  by_cases context :
      trustedContextRejectReason share trustedContext = .none
  swap
  · simp only [structural, context, ne_eq, not_false_eq_true,
      not_true_eq_false, if_true, if_false] at judged
    cases judged
    unfold trustedContextRejectReason
    split_ifs <;> exact .of_other (by simp) (by simp)
  by_cases timestamp : absoluteTimestampRejectReason share now = .none
  swap
  · simp only [structural, context, timestamp, ne_eq,
      not_false_eq_true, not_true_eq_false, if_true, if_false] at judged
    cases judged
    refine ⟨fun same => same, ?_⟩
    unfold absoluteTimestampRejectReason
    split_ifs <;> simp
  simp only [structural, context, timestamp, ne_eq, not_true_eq_false,
    if_false] at judged
  by_cases linked : chain.submittedLinkRejectReason share = .none
  swap
  · rw [if_pos linked] at judged
    cases judged
    exact submittedLink_timestampRefusal now
  rw [if_neg (not_not.mpr linked)] at judged
  obtain ⟨difficultyReason, last, expected, worked⟩ := bind_eq_ok.mp judged
  obtain ⟨checked, unchanged⟩ := orThrow_eq_ok.mp expected
  rw [unchanged] at worked
  split at worked
  · cases worked
    exact expectedDifficulty_timestampRefusal checked
  · exact submitWithWork_timestampRefusal sound isId worked

end Reasons

/-- Every share of a chain has been or will be judged by its policy. -/
structure JudgedByPolicy
    (policy : DifficultyPolicy)
    (chain : ShareChain) :
    Prop where
  configured : chain.difficultyPolicy = some policy
  connected :
    ∀ ⦃id : ShareId⦄ ⦃entry : ConnectedShare⦄,
      chain.connected[id]? = some entry →
        ∃ branch,
          Branch chain.connected entry.share.parentId branch ∧
          branchExpectedDifficulty policy branch
              entry.share.networkDifficulty =
            .ok entry.share.shareDifficulty
  orphans :
    ∀ ⦃id : ShareId⦄ ⦃orphan : OrphanShare⦄,
      chain.orphans[id]? = some orphan →
        orphan.enforceSidechainDifficulty = true

/-- The difficulty rule passes only the expected difficulty. -/
theorem branchDifficulty_expected
    {policy : DifficultyPolicy}
    {branch : List Share}
    {share : Share}
    (passed :
      branchDifficultyRejectReason (some policy) branch share = .ok .none) :
    branchExpectedDifficulty policy branch share.networkDifficulty =
      .ok share.shareDifficulty := by
  obtain ⟨expected, computed, compared⟩ := except_bind_eq_ok.mp passed
  by_cases same : share.shareDifficulty = expected
  · rw [same]
    exact computed
  · rw [if_neg same] at compared
    cases compared

/-- An insertion under the policy keeps every share judged by it. -/
theorem Growth.judgedByPolicy
    {policy : DifficultyPolicy}
    {incoming : Option OrphanShare}
    (offered :
      ∀ record, incoming = some record →
        record.enforceSidechainDifficulty = true)
    (growth : Growth backend incoming chain next)
    (judged : JudgedByPolicy policy chain) :
    JudgedByPolicy policy next := by
  cases growth with
  | @attach branch record source _ fresh isBranch admitted =>
      have enforced : record.enforceSidechainDifficulty = true :=
        source.elim (offered record) fun found => judged.orphans found
      have keeps :
          ∀ ⦃id : ShareId⦄ ⦃entry : ConnectedShare⦄,
            chain.connected[id]? = some entry →
              ∃ updated : ConnectedShare,
                (chain.attach branch record).connected[id]? = some updated ∧
                updated.share = entry.share :=
        fun _ entry present =>
          ⟨entry, (getElem?_insert_fresh fresh _).mpr (.inr present), rfl⟩
      refine ⟨judged.configured, ?_, fun _ _ found =>
        judged.orphans (getElem?_erase_iff.mp found).2⟩
      intro id entry found
      rcases (getElem?_insert_fresh fresh _).mp found with
        ⟨_, rfl⟩ | present
      · have passed := (branchVerdict_eq_none.mp admitted).2.1 enforced
        rw [judged.configured] at passed
        exact ⟨branch, isBranch.mono keeps, branchDifficulty_expected passed⟩
      · obtain ⟨below, isBelow, expected⟩ := judged.connected present
        exact ⟨below, isBelow.mono keeps, expected⟩
  | buffer source _ _ notBuffered _ _ =>
      refine ⟨judged.configured, judged.connected, ?_⟩
      intro id orphan found
      rcases (getElem?_insert_fresh notBuffered _).mp found with
        ⟨_, rfl⟩ | present
      · exact offered _ source
      · exact judged.orphans present
  | discard _ _ _ _ =>
      exact ⟨judged.configured, judged.connected, fun _ _ found =>
        judged.orphans (getElem?_erase_iff.mp found).2⟩
  | unindex _ =>
      exact ⟨judged.configured, judged.connected, judged.orphans⟩

theorem Growths.judgedByPolicy
    {policy : DifficultyPolicy}
    {incoming : Option OrphanShare}
    (offered :
      ∀ record, incoming = some record →
        record.enforceSidechainDifficulty = true)
    (growths : Growths backend incoming chain next)
    (judged : JudgedByPolicy policy chain) :
    JudgedByPolicy policy next := by
  induction growths with
  | refl => exact judged
  | tail _ growth inductionHypothesis =>
      exact growth.judgedByPolicy offered inductionHypothesis

/-- The invariant of a chain that shares are only submitted to. -/
structure SubmittedOnly
    (backend : Backend)
    (policy : DifficultyPolicy)
    (submissions : List SubmitCall)
    (chain : ShareChain) :
    Prop where
  sound : Sound backend chain
  judged : JudgedByPolicy policy chain
  timely :
    HoldsOnly (TimelySubmission submissions kShareMaxFutureSeconds) chain

/-- One submission keeps the invariant. -/
theorem SubmittedOnly.submit
    {policy : DifficultyPolicy}
    {submissions : List SubmitCall}
    (before : SubmittedOnly backend policy submissions chain)
    {submission : SubmitCall}
    (listed : submission ∈ submissions) :
    SubmittedOnly backend policy submissions
      (finalState (submission.op.run backend chain)) := by
  obtain ⟨sound, judged, timely⟩ := before
  rw [SubmitCall.op, ChainOp.run, ChainOp.finalState_discard]
  rcases submitShare_outcome sound.standing submission.share submission.trustedContext
      submission.now submission.mode with
    ⟨record, vetted, outcome⟩ | ⟨_, unchanged⟩
  · obtain ⟨sameShare, _, enforced, _⟩ := vetSubmission_record vetted
    obtain ⟨id, validation, checks, _⟩ := vetSubmission_eq_some.mp vetted
    have growths := outcome.growths sound
    refine ⟨growths.changes.sound sound, growths.judgedByPolicy ?_ judged, ?_⟩
    · rintro _ ⟨⟩
      rw [enforced, judged.configured]
      rfl
    · refine growths.changes.preserves _ ?_ timely
      intro middle after holds change
      refine change.holdsOnly ?_ holds
      rintro _ ⟨⟩
      exact ⟨submission, listed, sameShare.symm, by
        rw [sameShare]
        exact absoluteTimestamp_none checks.timestamp⟩
  · rcases unchanged with ⟨thrown, same⟩ | ⟨value, same, _⟩
    · rw [same]
      exact ⟨sound, judged, timely⟩
    · rw [same]
      exact ⟨sound, judged, timely⟩

/-- Any number of submissions keep the invariant. -/
theorem SubmittedOnly.submitAll
    {policy : DifficultyPolicy}
    {submissions remaining : List SubmitCall}
    (before : SubmittedOnly backend policy submissions chain)
    (listed : ∀ submission ∈ remaining, submission ∈ submissions) :
    SubmittedOnly backend policy submissions
      (ZanoP2pool.submitAll backend remaining chain) := by
  induction remaining generalizing chain with
  | nil => exact before
  | cons submission rest inductionHypothesis =>
      obtain ⟨here, others⟩ := List.forall_mem_cons.mp listed
      exact inductionHypothesis (before.submit here) others

/-- The version range a structurally valid share is in. -/
theorem structural_version
    {policy : DifficultyPolicy}
    {share : Share}
    (structural : structuralRejectReason (some policy) share = .none) :
    policy.minimumShareVersion ≤ share.version ∧
      share.version ≤ policy.maximumShareVersion := by
  unfold structuralRejectReason at structural
  by_cases unexpected :
      (decide (share.version < policy.minimumShareVersion) ||
        decide (share.version > policy.maximumShareVersion)) = true
  · simp only [unexpected, if_true] at structural
    cases structural
  · rw [Bool.or_eq_true, decide_eq_true_eq, decide_eq_true_eq, not_or]
      at unexpected
    exact ⟨UInt8.not_lt.mp unexpected.1, UInt8.not_lt.mp unexpected.2⟩

end ShareChain

open ShareChain in
/--
Where the committed timestamp bounds are the constants of the source, every state
reached by submissions applies the committed rules.
-/
theorem submitAll_parametersEnforced
    {backend : Backend}
    {params : SidechainParameters}
    {start : ShareChain}
    (built : ofParameters backend params = .ok start)
    (future : params.maxFutureSeconds = kShareMaxFutureSeconds)
    (backstep :
      params.maxParentBackstepSeconds = kShareMaxParentBackstepSeconds)
    (submissions : List SubmitCall) :
    ParametersEnforced backend params submissions
      (submitAll backend submissions start) := by
  unfold ofParameters at built
  obtain ⟨parameterId, _, finished⟩ := except_bind_eq_ok.mp built
  cases finished
  have initial :
      SubmittedOnly backend
        { minimumShareVersion := params.minimumShareVersion
          maximumShareVersion := params.maximumShareVersion
          targetShareSeconds := params.targetShareSeconds
          minimumShareDifficulty := params.minimumShareDifficulty
          difficultyWindowShares := params.difficultyWindowShares }
        submissions _ :=
    ⟨Sound.empty backend _ (some parameterId), ⟨rfl, by simp, by simp⟩,
      by simp, by simp⟩
  obtain ⟨sound, judged, timely⟩ := initial.submitAll fun _ member => member
  refine ⟨?_, ?_, ?_, ?_, ?_, ?_⟩
  · rw [future]
    exact timely.1
  · intro id entry parent found nonzero parentFound
    rcases sound.linkedOrRoot found with
      ⟨zero, _⟩ | ⟨linked, linkedFound, _, near⟩
    · exact absurd zero nonzero
    · rw [parentFound] at linkedFound
      cases linkedFound
      rw [backstep]
      exact near
  · intro id entry found
    have structural := sound.structural found
    rw [judged.configured] at structural
    exact structural_version structural
  · intro id entry found
    obtain ⟨branch, isBranch, expected⟩ := judged.connected found
    exact ⟨branch, isBranch, retarget_of_branchExpectedDifficulty expected⟩
  · intro submission result after submitted reason
    rw [future]
    exact absoluteTimestamp_iff.mp
      ((submitShare_timestampRefusal sound submitted).future reason)
  · intro submission result after submitted reason
    obtain ⟨parent, found, age⟩ :=
      (submitShare_timestampRefusal sound submitted).backstep reason
    rw [backstep]
    exact ⟨parent, found, parentTimestamp_iff.mp age⟩

/-- One submission of a root share, ten seconds before its timestamp. -/
def earlySubmission : SubmitCall where
  share := sampleShare 0 0 0 1
  trustedContext := sampleContext
  now := 990
  mode := .light

/--
A child that waits for the root, the root itself, and a child that is older than
the root.
-/
def sampleSubmitCalls : List SubmitCall :=
  [ { earlySubmission with share := sampleShare 1 1 1 1 }
  , earlySubmission
  , { earlySubmission with
      share := { sampleShare 1 1 2 1 with timestamp := 970 } } ]

/-- With the constants committed the rules are the committed ones. -/
theorem submitAll_parametersEnforced_sample :
    let reached := submitAll sampleBackend sampleSubmitCalls sampleStart
    ShareChain.ofParameters sampleBackend sampleParameters =
        .ok sampleStart ∧
      (submitAll sampleBackend (sampleSubmitCalls.take 1)
        sampleStart).orphans.contains 2 = true ∧
      reached.connected.keys = [1, 2, 3] ∧
      ShareChain.ParametersEnforced sampleBackend sampleParameters
        sampleSubmitCalls reached :=
  ⟨sampleStart_built, by decide +kernel, by decide +kernel,
    submitAll_parametersEnforced sampleStart_built rfl rfl sampleSubmitCalls⟩

/-- The sample parameters, committing to no tolerance of the future. -/
def strictParameters : SidechainParameters :=
  { sampleParameters with maxFutureSeconds := 0 }

/-- A chain that commits to no tolerance connects a share from the future. -/
theorem strictParameters_notEnforced :
    ShareChain.ofParameters sampleBackend strictParameters =
        .ok sampleStart ∧
      ¬ ShareChain.ParametersEnforced sampleBackend strictParameters
        [earlySubmission]
        (submitAll sampleBackend [earlySubmission] sampleStart) := by
  refine ⟨rfl, ?_⟩
  intro enforced
  have connected :
      (submitAll sampleBackend [earlySubmission]
        sampleStart).connected.contains 1 = true := by
    decide +kernel
  obtain ⟨entry, found⟩ := contains_iff_getElem?.mp connected
  obtain ⟨submission, listed, same, within⟩ := enforced.timely found
  rw [List.mem_singleton] at listed
  subst listed
  rw [← same] at within
  exact absurd within (by decide)

end ZanoP2pool
