import ZanoP2pool.ShareChainPromotion

namespace ZanoP2pool

open Foundation

/-!
# Admission as elementary changes

`add_prevalidated_share` and `submit_share` reach their final state, normal or
exceptional, through elementary changes.
-/

namespace ShareChain

variable {backend : Backend} {incoming : Option OrphanShare}
variable {chain : ShareChain}

/-- The result of an insertion that connected its share. -/
def connectedResult
    (chain final : ShareChain)
    (id : ShareId)
    (promotedOrphans : Nat) :
    AddShareResult :=
  { id
    disposition := .connected
    promotedOrphans
    bestTipChanged := decide (chain.bestTipId ≠ final.bestTipId) }

/-- Every way in which the insertion of a keyed record can end. -/
inductive AddOutcome
    (backend : Backend)
    (chain : ShareChain)
    (record : OrphanShare) :
    EStateM.Result Exception ShareChain AddShareResult → Prop where
  | duplicate :
      (chain.contains record.id || chain.isOrphan record.id) = true →
      AddOutcome backend chain record
        (.ok { id := record.id, disposition := .duplicate } chain)
  | malformed
      {reason : ShareRejectReason} :
      chain.connected[record.id]? = none →
      chain.orphans[record.id]? = none →
      structuralRejectReason chain.difficultyPolicy record.share = reason →
      reason ≠ .none →
      AddOutcome backend chain record
        (.ok
          { id := record.id, disposition := .rejected
            rejectReason := reason }
          chain)
  | buffered :
      chain.connected[record.id]? = none →
      chain.orphans[record.id]? = none →
      WellFormedRecord backend chain.difficultyPolicy record →
      record.share.parentId ≠ 0 →
      chain.connected[record.share.parentId]? = none →
      AddOutcome backend chain record
        (.ok { id := record.id, disposition := .orphan }
          (chain.buffer record))
  | threw
      {branch : List Share}
      {thrown : Exception} :
      Branch chain.connected record.share.parentId branch →
      branchVerdict chain.difficultyPolicy branch record.share
        record.enforceSidechainDifficulty = .error thrown →
      AddOutcome backend chain record (.error thrown chain)
  | refused
      {branch : List Share}
      {reason : ShareRejectReason} :
      chain.connected[record.id]? = none →
      chain.orphans[record.id]? = none →
      WellFormedRecord backend chain.difficultyPolicy record →
      Branch chain.connected record.share.parentId branch →
      branchVerdict chain.difficultyPolicy branch record.share
        record.enforceSidechainDifficulty = .ok reason →
      reason ≠ .none →
      AddOutcome backend chain record
        (.ok
          { id := record.id, disposition := .rejected
            rejectReason := reason }
          chain)
  | connected
      {branch : List Share}
      {promotedOrphans : Nat}
      {final : ShareChain} :
      chain.connected[record.id]? = none →
      chain.orphans[record.id]? = none →
      WellFormedRecord backend chain.difficultyPolicy record →
      Branch chain.connected record.share.parentId branch →
      branchVerdict chain.difficultyPolicy branch record.share
        record.enforceSidechainDifficulty = .ok .none →
      promoteChildren record.id (chain.attach branch record) =
        .ok promotedOrphans final →
      AddOutcome backend chain record
        (.ok (connectedResult chain final record.id promotedOrphans) final)
  | interrupted
      {branch : List Share}
      {thrown : Exception}
      {final : ShareChain} :
      chain.connected[record.id]? = none →
      chain.orphans[record.id]? = none →
      WellFormedRecord backend chain.difficultyPolicy record →
      Branch chain.connected record.share.parentId branch →
      branchVerdict chain.difficultyPolicy branch record.share
        record.enforceSidechainDifficulty = .ok .none →
      promoteChildren record.id (chain.attach branch record) =
        .error thrown final →
      AddOutcome backend chain record (.error thrown final)

/-- A known identity is reported as a duplicate. -/
theorem addPrevalidatedShare_duplicate
    (record : OrphanShare)
    (keyed : shareId backend record.share = .ok record.id)
    (known :
      (chain.contains record.id || chain.isOrphan record.id) = true) :
    addPrevalidatedShare backend record.share record.powValidation
        record.enforceSidechainDifficulty chain =
      .ok { id := record.id, disposition := .duplicate } chain := by
  unfold addPrevalidatedShare
  rw [keyed, bind_of_ok (orThrow_ok _ _), get_bind_apply, if_pos known]
  rfl

section Insertion

variable {record : OrphanShare}
variable (keyed : shareId backend record.share = .ok record.id)
variable (fresh : chain.connected[record.id]? = none)
variable (notBuffered : chain.orphans[record.id]? = none)

include fresh notBuffered in
private theorem not_known :
    ¬ (chain.contains record.id || chain.isOrphan record.id) = true := by
  rw [Bool.or_eq_true, not_or, Bool.not_eq_true, Bool.not_eq_true]
  exact ⟨contains_eq_false_iff.mpr fresh,
    contains_eq_false_iff.mpr notBuffered⟩

include keyed fresh notBuffered in
/-- A new record that fails the structural checks is rejected. -/
theorem addPrevalidatedShare_malformed
    (malformed :
      structuralRejectReason chain.difficultyPolicy record.share ≠ .none) :
    addPrevalidatedShare backend record.share record.powValidation
        record.enforceSidechainDifficulty chain =
      .ok
        { id := record.id, disposition := .rejected
          rejectReason :=
            structuralRejectReason chain.difficultyPolicy record.share }
        chain := by
  unfold addPrevalidatedShare
  rw [keyed, bind_of_ok (orThrow_ok _ _), get_bind_apply,
    if_neg (not_known fresh notBuffered)]
  simp only [malformed, ne_eq, not_false_eq_true, if_true]
  rfl

include fresh notBuffered in
/-- A new well-formed record without a connected parent is buffered. -/
theorem addPrevalidatedShare_waiting
    (wellFormed : WellFormedRecord backend chain.difficultyPolicy record)
    (nonzeroParent : record.share.parentId ≠ 0)
    (missing : chain.connected[record.share.parentId]? = none) :
    addPrevalidatedShare backend record.share record.powValidation
        record.enforceSidechainDifficulty chain =
      .ok { id := record.id, disposition := .orphan }
        (chain.buffer record) := by
  have waiting :
      (!isZeroShareId record.share.parentId &&
        !chain.contains record.share.parentId) = true := by
    rw [isZeroShareId_eq_false.mpr nonzeroParent,
      show chain.contains record.share.parentId = false from
        contains_eq_false_iff.mpr missing]
    rfl
  unfold addPrevalidatedShare
  rw [wellFormed.keyed, bind_of_ok (orThrow_ok _ _), get_bind_apply,
    if_neg (not_known fresh notBuffered)]
  simp only [wellFormed.structural, ne_eq, not_true_eq_false, if_false,
    waiting, if_true]
  rfl

include fresh notBuffered in
/-- A new well-formed record on a branch is treated as the branch decides. -/
theorem addPrevalidatedShare_onBranch
    (standing : Standing chain)
    (wellFormed : WellFormedRecord backend chain.difficultyPolicy record)
    {branch : List Share}
    (isBranch : Branch chain.connected record.share.parentId branch) :
    addPrevalidatedShare backend record.share record.powValidation
        record.enforceSidechainDifficulty chain =
      match branchVerdict chain.difficultyPolicy branch record.share
          record.enforceSidechainDifficulty with
      | .error thrown => .error thrown chain
      | .ok .none =>
          match promoteChildren record.id (chain.attach branch record) with
          | .error thrown final => .error thrown final
          | .ok promotedOrphans final =>
              .ok (connectedResult chain final record.id promotedOrphans)
                final
      | .ok reason =>
          .ok
            { id := record.id, disposition := .rejected
              rejectReason := reason }
            chain := by
  have notWaiting :
      (!isZeroShareId record.share.parentId &&
        !chain.contains record.share.parentId) = false := by
    rcases connectParent_eq isBranch with
      ⟨zero, _, _⟩ | ⟨parent, _, _, found, _, _, _⟩
    · rw [isZeroShareId_iff.mpr zero]
      rfl
    · rw [show chain.contains record.share.parentId = true from
        contains_iff_getElem?.mpr ⟨parent, found⟩]
      simp
  have connects :=
    connectShare_apply standing
      (structuralRejectReason_eq_none wellFormed.structural).1 fresh isBranch
  unfold addPrevalidatedShare
  rw [wellFormed.keyed, bind_of_ok (orThrow_ok _ _), get_bind_apply,
    if_neg (not_known fresh notBuffered)]
  simp only [wellFormed.structural, ne_eq, not_true_eq_false, if_false,
    notWaiting, Bool.false_eq_true]
  cases judged : branchVerdict chain.difficultyPolicy branch record.share
      record.enforceSidechainDifficulty with
  | error thrown =>
      rw [judged] at connects
      rw [bind_of_error connects]
  | ok reason =>
      rw [judged] at connects
      rw [bind_of_ok connects]
      by_cases admitted : reason = .none
      · subst reason
        simp only [not_true_eq_false, if_false, if_true,
          linked_eq_attach notBuffered]
        cases promoted :
            promoteChildren record.id (chain.attach branch record) with
        | error thrown final =>
            rw [bind_of_error promoted]
        | ok promotedOrphans final =>
            rw [bind_of_ok promoted]
            rfl
      · simp only [admitted, not_false_eq_true, if_true, if_false]
        rfl

include fresh notBuffered in
/-- A new well-formed record is rejected for the reason of the verdict. -/
theorem addPrevalidatedShare_refused
    (standing : Standing chain)
    (wellFormed : WellFormedRecord backend chain.difficultyPolicy record)
    {branch : List Share}
    (isBranch : Branch chain.connected record.share.parentId branch)
    {reason : ShareRejectReason}
    (judged :
      branchVerdict chain.difficultyPolicy branch record.share
        record.enforceSidechainDifficulty = .ok reason)
    (refusal : reason ≠ .none) :
    addPrevalidatedShare backend record.share record.powValidation
        record.enforceSidechainDifficulty chain =
      .ok
        { id := record.id, disposition := .rejected
          rejectReason := reason }
        chain := by
  rw [addPrevalidatedShare_onBranch fresh notBuffered standing wellFormed
    isBranch, judged]
  cases reason <;> first | rfl | exact (refusal rfl).elim

include fresh notBuffered in
/-- A verdict that cannot be computed ends the insertion. -/
theorem addPrevalidatedShare_threw
    (standing : Standing chain)
    (wellFormed : WellFormedRecord backend chain.difficultyPolicy record)
    {branch : List Share}
    (isBranch : Branch chain.connected record.share.parentId branch)
    {thrown : Exception}
    (judged :
      branchVerdict chain.difficultyPolicy branch record.share
        record.enforceSidechainDifficulty = .error thrown) :
    addPrevalidatedShare backend record.share record.powValidation
        record.enforceSidechainDifficulty chain =
      .error thrown chain := by
  rw [addPrevalidatedShare_onBranch fresh notBuffered standing wellFormed
    isBranch, judged]

include keyed in
/-- Insertion of a keyed record ends in one of the listed ways. -/
theorem addPrevalidatedShare_outcome
    (standing : Standing chain) :
    AddOutcome backend chain record
      (addPrevalidatedShare backend record.share record.powValidation
        record.enforceSidechainDifficulty chain) := by
  by_cases known :
      (chain.contains record.id || chain.isOrphan record.id) = true
  · rw [addPrevalidatedShare_duplicate record keyed known]
    exact .duplicate known
  rw [Bool.or_eq_true, not_or, Bool.not_eq_true, Bool.not_eq_true] at known
  have fresh := contains_eq_false_iff.mp known.1
  have notBuffered := contains_eq_false_iff.mp known.2
  by_cases structural :
      structuralRejectReason chain.difficultyPolicy record.share = .none
  swap
  · rw [addPrevalidatedShare_malformed keyed fresh notBuffered structural]
    exact .malformed fresh notBuffered rfl structural
  have wellFormed :
      WellFormedRecord backend chain.difficultyPolicy record :=
    ⟨keyed, structural⟩
  by_cases parentKnown :
      record.share.parentId = 0 ∨
        ∃ parent, chain.connected[record.share.parentId]? = some parent
  swap
  · rw [not_or, not_exists] at parentKnown
    have missing := Option.eq_none_iff_forall_ne_some.mpr parentKnown.2
    rw [addPrevalidatedShare_waiting fresh notBuffered wellFormed
      parentKnown.1 missing]
    exact .buffered fresh notBuffered wellFormed parentKnown.1 missing
  obtain ⟨branch, isBranch⟩ := standing.exists_branch parentKnown
  cases judged : branchVerdict chain.difficultyPolicy branch record.share
      record.enforceSidechainDifficulty with
  | error thrown =>
      rw [addPrevalidatedShare_threw fresh notBuffered standing wellFormed
        isBranch judged]
      exact .threw isBranch judged
  | ok reason =>
      by_cases admitted : reason = .none
      · subst reason
        rw [addPrevalidatedShare_onBranch fresh notBuffered standing wellFormed
          isBranch, judged]
        cases promoted :
            promoteChildren record.id (chain.attach branch record) with
        | error thrown final =>
            exact .interrupted fresh notBuffered wellFormed isBranch
              judged promoted
        | ok promotedOrphans final =>
            exact .connected fresh notBuffered wellFormed isBranch
              judged promoted
      · rw [addPrevalidatedShare_refused fresh notBuffered standing wellFormed
          isBranch judged admitted]
        exact .refused fresh notBuffered wellFormed isBranch judged admitted

end Insertion

/-- Promotion after an elementary change continues the sequence. -/
theorem Growth.thenPromote
    (sound : Sound backend chain)
    {middle : ShareChain}
    (growth : Growth backend incoming chain middle)
    (parentId : ShareId) :
    Growths backend incoming chain
      (finalState (promoteChildren parentId middle)) :=
  .head growth
    (promoteChildren_growths parentId (growth.sound sound) incoming)

/-- Every way of inserting a record is a sequence of elementary changes. -/
theorem AddOutcome.growths
    (sound : Sound backend chain)
    {record : OrphanShare}
    {result : EStateM.Result Exception ShareChain AddShareResult}
    (outcome : AddOutcome backend chain record result) :
    Growths backend (some record) chain (finalState result) := by
  cases outcome with
  | duplicate _ => exact .refl
  | malformed _ _ _ _ => exact .refl
  | buffered fresh notBuffered wellFormed nonzero missing =>
      exact .single (.buffer rfl wellFormed fresh notBuffered nonzero missing)
  | threw _ _ => exact .refl
  | refused _ _ _ _ _ _ => exact .refl
  | connected fresh _ wellFormed isBranch judged promoted =>
      have growth := Growth.attach (.inl rfl) wellFormed fresh isBranch judged
      have reached := growth.thenPromote sound record.id
      rw [promoted] at reached
      exact reached
  | interrupted fresh _ wellFormed isBranch judged promoted =>
      have growth := Growth.attach (.inl rfl) wellFormed fresh isBranch judged
      have reached := growth.thenPromote sound record.id
      rw [promoted] at reached
      exact reached

/-- The record a validated submission is inserted with. -/
def submissionRecord
    (policy : Option DifficultyPolicy)
    (share : Share)
    (id : ShareId)
    (validation : CandidateValidation) :
    OrphanShare :=
  { share, id
    powValidation := some validation
    enforceSidechainDifficulty := policy.isSome }

/-- The proof-of-work evaluation of a submission. -/
def submissionValidation
    (backend : Backend)
    (share : Share)
    (trustedContext : ShareWorkContext)
    (mode : ProgPowZContextMode) :
    Except Exception CandidateValidation :=
  validateCandidate backend trustedContext.zanoHeight
    trustedContext.miningHeaderHash share.nonce
    (difficulty128ToDecimal share.shareDifficulty)
    (difficulty128ToDecimal trustedContext.networkDifficulty) mode

/--
A submission has passed every check of `submit_share` that does not look at
the connected shares.
-/
structure Vetted
    (backend : Backend)
    (policy : Option DifficultyPolicy)
    (share : Share)
    (trustedContext : ShareWorkContext)
    (now : UInt64)
    (mode : ProgPowZContextMode)
    (id : ShareId)
    (validation : CandidateValidation) :
    Prop where
  keyed : shareId backend share = .ok id
  structural : structuralRejectReason policy share = .none
  context : trustedContextRejectReason share trustedContext = .none
  timestamp : absoluteTimestampRejectReason share now = .none
  available : backend.progpowzAvailable = true
  validated :
    submissionValidation backend share trustedContext mode = .ok validation
  meets : validation.meetsShareDifficulty = true
  classified : validation.classification ≠ .invalid

/-- The record of a submission, if every check on the share alone passes. -/
def vetSubmission
    (backend : Backend)
    (policy : Option DifficultyPolicy)
    (share : Share)
    (trustedContext : ShareWorkContext)
    (now : UInt64)
    (mode : ProgPowZContextMode) :
    Option OrphanShare :=
  match shareId backend share,
      submissionValidation backend share trustedContext mode with
  | .ok id, .ok validation =>
      if structuralRejectReason policy share = .none ∧
          trustedContextRejectReason share trustedContext = .none ∧
          absoluteTimestampRejectReason share now = .none ∧
          backend.progpowzAvailable = true ∧
          validation.meetsShareDifficulty = true ∧
          validation.classification ≠ .invalid then
        some (submissionRecord policy share id validation)
      else
        none
  | _, _ => none

section Submission

variable {policy : Option DifficultyPolicy} {share : Share}
variable {trustedContext : ShareWorkContext} {now : UInt64}
variable {mode : ProgPowZContextMode} {record : OrphanShare}

/-- Vetting succeeds exactly when every listed check does. -/
theorem vetSubmission_eq_some :
    vetSubmission backend policy share trustedContext now mode =
        some record ↔
      ∃ id validation,
        Vetted backend policy share trustedContext now mode id validation ∧
        record = submissionRecord policy share id validation := by
  constructor
  · intro vetted
    unfold vetSubmission at vetted
    split at vetted
    · rename_i id validation keyed validated
      split_ifs at vetted with checks
      cases vetted
      obtain ⟨structural, context, timestamp, available, meets, classified⟩ :=
        checks
      exact ⟨id, validation, ⟨keyed, structural, context, timestamp,
        available, validated, meets, classified⟩, rfl⟩
    · cases vetted
  · rintro ⟨id, validation, checks, rfl⟩
    simp only [vetSubmission, checks.keyed, checks.validated]
    exact if_pos ⟨checks.structural, checks.context, checks.timestamp,
      checks.available, checks.meets, checks.classified⟩

/-- The parent-link check of a submission is the one on the branch. -/
theorem submittedLinkRejectReason_eq
    {branch : List Share}
    (isBranch : Branch chain.connected share.parentId branch) :
    chain.submittedLinkRejectReason share =
      branchLinkRejectReason share branch := by
  rcases connectParent_eq isBranch with
    ⟨zero, rfl, _⟩ | ⟨parent, rest, nonzero, found, rfl, _, _⟩
  · simp [submittedLinkRejectReason, isZeroShareId_iff.mpr zero,
      branchLinkRejectReason]
  · simp [submittedLinkRejectReason, isZeroShareId_eq_false.mpr nonzero,
      find, found, branchLinkRejectReason]

/-- A vetted submission that reaches the proof-of-work part is inserted. -/
theorem submitWithWork_apply
    {id : ShareId}
    {validation : CandidateValidation}
    (checks :
      Vetted backend chain.difficultyPolicy share trustedContext now mode id
        validation) :
    submitWithWork backend share id trustedContext mode chain =
      addPrevalidatedShare backend share (some validation)
        chain.difficultyPolicy.isSome chain := by
  have validated := checks.validated
  unfold submissionValidation at validated
  unfold submitWithWork
  rw [checks.available, validated]
  simp [checks.meets, checks.classified, bind_apply]

/--
A vetted submission is inserted: the checks `submit_share` makes against the
connected shares are the ones the insertion makes again.
-/
theorem submitShare_eq_add
    (standing : Standing chain)
    (vetted :
      vetSubmission backend chain.difficultyPolicy share trustedContext now
        mode = some record) :
    submitShare backend share trustedContext now mode chain =
      addPrevalidatedShare backend record.share record.powValidation
        record.enforceSidechainDifficulty chain := by
  obtain ⟨id, validation, checks, rfl⟩ := vetSubmission_eq_some.mp vetted
  unfold submitShare
  rw [checks.keyed, bind_of_ok (orThrow_ok _ _), get_bind_apply]
  by_cases known : (chain.contains id || chain.isOrphan id) = true
  · rw [if_pos known]
    exact (addPrevalidatedShare_duplicate
      (submissionRecord chain.difficultyPolicy share id validation)
      checks.keyed known).symm
  rw [if_neg known]
  rw [Bool.or_eq_true, not_or, Bool.not_eq_true, Bool.not_eq_true] at known
  have fresh := contains_eq_false_iff.mp known.1
  have notBuffered := contains_eq_false_iff.mp known.2
  have wellFormed :
      WellFormedRecord backend chain.difficultyPolicy
        (submissionRecord chain.difficultyPolicy share id validation) :=
    ⟨checks.keyed, checks.structural⟩
  simp only [checks.structural, checks.context, checks.timestamp, ne_eq,
    not_true_eq_false, if_false]
  have inserts := submitWithWork_apply checks
  by_cases parentKnown :
      share.parentId = 0 ∨
        ∃ parent, chain.connected[share.parentId]? = some parent
  · obtain ⟨branch, isBranch⟩ := standing.exists_branch parentKnown
    rw [submittedLinkRejectReason_eq isBranch,
      expectedDifficultyRejectReason_eq standing.rooted isBranch]
    by_cases linked : branchLinkRejectReason share branch = .none
    swap
    · rw [if_pos linked]
      exact (addPrevalidatedShare_refused fresh notBuffered standing wellFormed
        isBranch (branchVerdict_of_link linked) linked).symm
    rw [if_neg (not_ne_iff.mpr linked)]
    cases checked :
        branchDifficultyRejectReason chain.difficultyPolicy branch share with
    | error thrown =>
        have judged := branchVerdict_of_difficulty linked checked (by simp)
        exact (addPrevalidatedShare_threw fresh notBuffered standing wellFormed
          isBranch judged).symm
    | ok reason =>
        rw [bind_of_ok (orThrow_ok _ _)]
        by_cases expected : reason = .none
        · rw [if_neg (not_ne_iff.mpr expected)]
          exact inserts
        · have judged :=
            branchVerdict_of_difficulty linked checked (by simp [expected])
          rw [if_pos expected]
          exact (addPrevalidatedShare_refused fresh notBuffered standing
            wellFormed isBranch judged expected).symm
  · rw [not_or, not_exists] at parentKnown
    have missing := Option.eq_none_iff_forall_ne_some.mpr parentKnown.2
    have unlinked : chain.submittedLinkRejectReason share = .none := by
      simp [submittedLinkRejectReason,
        isZeroShareId_eq_false.mpr parentKnown.1, find, missing]
    have unjudged : chain.expectedDifficultyRejectReason share = .ok .none := by
      simp [expectedDifficultyRejectReason,
        isZeroShareId_eq_false.mpr parentKnown.1,
        show chain.contains share.parentId = false from
          contains_eq_false_iff.mpr missing]
    rw [unlinked, unjudged, if_neg (by simp), bind_of_ok (orThrow_ok _ _),
      if_neg (by simp)]
    exact inserts

/-- An insertion attempt that left the chain as it was. -/
def LeavesChain
    (chain : ShareChain)
    (result : EStateM.Result Exception ShareChain AddShareResult) :
    Prop :=
  (∃ thrown, result = .error thrown chain) ∨
    ∃ value,
      result = .ok value chain ∧
      (value.disposition = .duplicate ∨ value.disposition = .rejected)

/-- A submission that fails a check on the share alone changes nothing. -/
theorem submitShare_unvetted
    (unvetted :
      vetSubmission backend chain.difficultyPolicy share trustedContext now
        mode = none) :
    LeavesChain chain
      (submitShare backend share trustedContext now mode chain) := by
  have rejects :
      ∀ (id : ShareId) (reason : ShareRejectReason),
        LeavesChain chain
          (.ok
            { id, disposition := .rejected, rejectReason := reason }
            chain) :=
    fun _ _ => .inr ⟨_, rfl, .inr rfl⟩
  unfold submitShare
  cases keyed : shareId backend share with
  | error thrown =>
      exact .inl ⟨thrown, rfl⟩
  | ok id =>
      rw [bind_of_ok (orThrow_ok _ _), get_bind_apply]
      by_cases known : (chain.contains id || chain.isOrphan id) = true
      · rw [if_pos known]
        exact .inr ⟨_, rfl, .inl rfl⟩
      rw [if_neg known]
      by_cases structural :
          structuralRejectReason chain.difficultyPolicy share = .none
      swap
      · simp only [structural, ne_eq, not_false_eq_true, if_true]
        exact rejects _ _
      by_cases context :
          trustedContextRejectReason share trustedContext = .none
      swap
      · simp only [structural, context, ne_eq, not_false_eq_true,
          not_true_eq_false, if_true, if_false]
        exact rejects _ _
      by_cases timestamp : absoluteTimestampRejectReason share now = .none
      swap
      · simp only [structural, context, timestamp, ne_eq,
          not_false_eq_true, not_true_eq_false, if_true, if_false]
        exact rejects _ _
      simp only [structural, context, timestamp, ne_eq, not_true_eq_false,
        if_false]
      by_cases linked : chain.submittedLinkRejectReason share = .none
      swap
      · rw [if_pos linked]
        exact rejects _ _
      rw [if_neg (not_ne_iff.mpr linked)]
      cases chain.expectedDifficultyRejectReason share with
      | error thrown =>
          exact .inl ⟨thrown, rfl⟩
      | ok reason =>
          rw [bind_of_ok (orThrow_ok _ _)]
          by_cases expected : reason = .none
          swap
          · rw [if_pos expected]
            exact rejects _ _
          rw [if_neg (not_ne_iff.mpr expected)]
          unfold submitWithWork
          cases available : backend.progpowzAvailable with
          | false =>
              exact rejects _ _
          | true =>
              rw [if_neg (by simp)]
              cases validated :
                  submissionValidation backend share trustedContext mode with
              | error thrown =>
                  have evaluated := validated
                  unfold submissionValidation at evaluated
                  rw [evaluated]
                  exact .inl ⟨thrown, rfl⟩
              | ok validation =>
                  have evaluated := validated
                  unfold submissionValidation at evaluated
                  rw [evaluated, bind_of_ok (orThrow_ok _ _)]
                  by_cases invalid :
                      (!validation.meetsShareDifficulty ||
                        validation.classification == .invalid) = true
                  · rw [if_pos invalid]
                    exact rejects _ _
                  · rw [Bool.or_eq_true, not_or, Bool.not_eq_true,
                      Bool.not_eq_true, Bool.not_eq_false',
                      beq_eq_false_iff_ne] at invalid
                    have vetted :=
                      vetSubmission_eq_some.mpr ⟨id, validation,
                        ⟨keyed, structural, context, timestamp, available,
                          validated, invalid.1, invalid.2⟩, rfl⟩
                    rw [unvetted] at vetted
                    cases vetted

/-- A vetted record carries its identity and consistent validation state. -/
theorem vetSubmission_record
    (vetted :
      vetSubmission backend policy share trustedContext now mode =
        some record) :
    record.share = share ∧
      shareId backend record.share = .ok record.id ∧
      record.enforceSidechainDifficulty = policy.isSome ∧
      ConsistentPow record.powValidation := by
  obtain ⟨id, validation, checks, rfl⟩ := vetSubmission_eq_some.mp vetted
  refine ⟨rfl, checks.keyed, rfl, ?_⟩
  intro stored holds
  cases holds
  exact validateCandidate_consistent checks.validated checks.meets

end Submission

end ShareChain

end ZanoP2pool
