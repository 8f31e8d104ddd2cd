import ZanoP2pool.ShareChainIndex

namespace ZanoP2pool

open Foundation

/-!
# Revalidation in place

Revalidation of one connected share changes nothing but the validation fields
of an entry that was not validated before.
-/

namespace ShareChain

variable {backend : Backend} {chain : ShareChain}

/-- The two ways in which a revalidation can end. -/
inductive RevalidateOutcome
    (chain : ShareChain)
    (id : ShareId) :
    EStateM.Result Exception ShareChain RevalidateShareResult → Prop where
  | threw
      (thrown : Exception) :
      RevalidateOutcome chain id (.error thrown chain)
  | kept
      {value : RevalidateShareResult} :
      value.status ≠ .validated →
      RevalidateOutcome chain id (.ok value chain)
  | upgraded
      {branch : List Share}
      {entry : ConnectedShare}
      {validation : CandidateValidation} :
      chain.connected[id]? = some entry →
      entry.validatedAncestry = false →
      chain.difficultyPolicy.isSome = true →
      Branch chain.connected entry.share.parentId branch →
      branchDifficultyRejectReason chain.difficultyPolicy branch
        entry.share = .ok .none →
      chain.parentValidated entry.share.parentId = true →
      replayValidationConsistent validation = true →
      RevalidateOutcome chain id
        (.ok { id, status := .validated }
          (chain.upgrade id entry validation))

/-- The parent checks pass exactly below a root or a validated parent. -/
theorem revalidateParentResult_eq_none
    {id : ShareId}
    {share : Share}
    (passed : chain.revalidateParentResult id share = none) :
    chain.parentValidated share.parentId = true := by
  unfold revalidateParentResult at passed
  cases zero : isZeroShareId share.parentId with
  | true =>
      exact parentValidated_iff.mpr (.inl (isZeroShareId_iff.mp zero))
  | false =>
      rw [zero, if_neg (by simp)] at passed
      cases found : chain.find share.parentId with
      | none => simp [found] at passed
      | some parent =>
          cases flagged : parent.validatedAncestry with
          | false => simp [found, flagged] at passed
          | true => exact parentValidated_iff.mpr (.inr ⟨parent, found, flagged⟩)

/-- A revalidation stopped by its parent checks does not report success. -/
theorem revalidateParentResult_status
    {id : ShareId}
    {share : Share}
    {result : RevalidateShareResult}
    (stopped : chain.revalidateParentResult id share = some result) :
    result.status ≠ .validated := by
  unfold revalidateParentResult at stopped
  split at stopped
  · cases stopped
  split at stopped
  · cases stopped
    simp
  split_ifs at stopped
  all_goals
    cases stopped
    simp

/-- Every revalidation either leaves the chain alone or upgrades one entry. -/
theorem revalidateConnectedShare_outcome
    (sound : Sound backend chain)
    (id : ShareId)
    (trustedContext : ShareWorkContext)
    (now : UInt64)
    (mode : ProgPowZContextMode) :
    RevalidateOutcome chain id
      (revalidateConnectedShare backend id trustedContext now mode
        chain) := by
  have stops :
      ∀ reason : ShareRejectReason,
        RevalidateOutcome chain id
          (.ok { id, status := .rejected, rejectReason := reason } chain) :=
    fun _ => .kept (by simp)
  unfold revalidateConnectedShare
  rw [get_bind_apply]
  cases found : chain.find id with
  | none =>
      exact .kept (by simp)
  | some entry =>
      simp only
      by_cases flagged : entry.validatedAncestry = true
      · rw [if_pos flagged]
        exact .kept (by simp)
      rw [if_neg flagged]
      by_cases configured : chain.difficultyPolicy.isNone = true
      · rw [if_pos configured]
        exact stops _
      rw [if_neg configured]
      by_cases structural :
          structuralRejectReason chain.difficultyPolicy entry.share = .none
      swap
      · rw [if_pos structural]
        exact stops _
      rw [if_neg (not_ne_iff.mpr structural)]
      by_cases context :
          trustedContextRejectReason entry.share trustedContext = .none
      swap
      · rw [if_pos context]
        exact stops _
      rw [if_neg (not_ne_iff.mpr context)]
      by_cases timestamp :
          absoluteTimestampRejectReason entry.share now = .none
      swap
      · rw [if_pos timestamp]
        exact stops _
      rw [if_neg (not_ne_iff.mpr timestamp)]
      cases parentChecked :
          chain.revalidateParentResult id entry.share with
      | some result =>
          exact .kept (revalidateParentResult_status parentChecked)
      | none =>
      simp only
      have parentFlag := revalidateParentResult_eq_none parentChecked
      obtain ⟨branch, isBranch, _, _⟩ := sound.rooted found
      rw [expectedDifficultyRejectReason_eq sound.rooted isBranch]
      cases checked : branchDifficultyRejectReason chain.difficultyPolicy
          branch entry.share with
      | error thrown =>
          exact .threw thrown
      | ok reason =>
      rw [bind_of_ok (orThrow_ok _ _)]
      by_cases expected : reason = .none
      swap
      · rw [if_pos expected]
        exact stops _
      rw [if_neg (not_ne_iff.mpr expected)]
      subst reason
      unfold revalidateWithWork
      by_cases unavailable : (!backend.progpowzAvailable) = true
      · rw [if_pos unavailable]
        exact stops _
      rw [if_neg unavailable]
      cases validated : validateCandidate backend trustedContext.zanoHeight
          trustedContext.miningHeaderHash entry.share.nonce
          (difficulty128ToDecimal entry.share.shareDifficulty)
          (difficulty128ToDecimal trustedContext.networkDifficulty) mode with
      | error thrown =>
          exact .threw thrown
      | ok validation =>
      rw [bind_of_ok (orThrow_ok _ _)]
      by_cases invalid :
          (!validation.meetsShareDifficulty ||
            validation.classification == .invalid) = true
      · rw [if_pos invalid]
        exact stops _
      rw [if_neg invalid]
      rw [Bool.or_eq_true, not_or, Bool.not_eq_true, Bool.not_eq_false']
        at invalid
      exact .upgraded found (Bool.not_eq_true _ ▸ flagged)
        (by simpa [Option.isSome_iff_ne_none] using configured) isBranch checked parentFlag
        (validateCandidate_consistent validated invalid.1)

/-- A revalidation is a sequence of elementary changes. -/
theorem RevalidateOutcome.changes
    {incoming : Option OrphanShare}
    {id : ShareId}
    {result : EStateM.Result Exception ShareChain RevalidateShareResult}
    (outcome : RevalidateOutcome chain id result) :
    Changes backend incoming chain (finalState result) := by
  cases outcome with
  | threw _ => exact .refl
  | kept _ => exact .refl
  | upgraded found flagged configured isBranch expected parentFlag
      consistent =>
      exact .single (.upgrade found flagged configured isBranch expected
        parentFlag consistent)

end ShareChain

end ZanoP2pool
