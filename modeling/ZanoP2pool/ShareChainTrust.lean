import ZanoP2pool.ShareChainChange

namespace ZanoP2pool

open Foundation

/-!
# Validated ancestry

The flag `validated_ancestry` is set by direct admission, by promotion of an
orphan, by revalidation and by a restore.  All four are elementary changes, so
the meaning of the flag is one invariant of elementary changes.
-/

namespace ShareChain

/-- The parent side is validated for a root or below a validated entry. -/
theorem parentValidated_iff
    {chain : ShareChain}
    {parentId : ShareId} :
    chain.parentValidated parentId = true ↔
      parentId = 0 ∨
        ∃ entry,
          chain.connected[parentId]? = some entry ∧
          entry.validatedAncestry = true := by
  unfold parentValidated
  cases zero : isZeroShareId parentId with
  | true =>
      exact iff_of_true rfl (.inl (isZeroShareId_iff.mp zero))
  | false =>
      rw [or_iff_right (isZeroShareId_eq_false.mp zero)]
      simp [find, Option.any_eq_true]

/-- A parent stays validated when validated entries stay validated. -/
theorem parentValidated_mono
    {chain later : ShareChain}
    (keepsValidated :
      ∀ ⦃id : ShareId⦄ ⦃entry : ConnectedShare⦄,
        chain.connected[id]? = some entry →
        entry.validatedAncestry = true →
          ∃ updated : ConnectedShare,
            later.connected[id]? = some updated ∧
            updated.validatedAncestry = true)
    {parentId : ShareId}
    (validated : chain.parentValidated parentId = true) :
    later.parentValidated parentId = true := by
  rw [parentValidated_iff] at validated ⊢
  rcases validated with zero | ⟨entry, found, flagged⟩
  · exact .inl zero
  · exact .inr (keepsValidated found flagged)

/-- Stored validation state, when present, is consistent. -/
def ConsistentPow (powValidation : Option CandidateValidation) : Prop :=
  ∀ ⦃validation⦄,
    powValidation = some validation →
      replayValidationConsistent validation = true

/-- What a validated entry of a chain is entitled to. -/
structure ValidatedEntry
    (chain : ShareChain)
    (entry : ConnectedShare) :
    Prop where
  parent : chain.parentValidated entry.share.parentId = true
  work :
    ∃ validation,
      entry.powValidation = some validation ∧
      replayValidationConsistent validation = true
  difficulty :
    ∃ branch,
      Branch chain.connected entry.share.parentId branch ∧
      branchDifficultyRejectReason chain.difficultyPolicy branch
        entry.share = .ok .none

/-- The meaning of the validated-ancestry flag in one state. -/
structure Trusted (chain : ShareChain) : Prop where
  validated :
    ∀ ⦃id : ShareId⦄ ⦃entry : ConnectedShare⦄,
      chain.connected[id]? = some entry →
      entry.validatedAncestry = true →
        ValidatedEntry chain entry
  orphanWork :
    ∀ ⦃id : ShareId⦄ ⦃orphan : OrphanShare⦄,
      chain.orphans[id]? = some orphan →
        ConsistentPow orphan.powValidation

namespace ValidatedEntry

/-- Entitlement survives changes that keep shares, flags and policy. -/
theorem mono
    {chain later : ShareChain}
    (keeps :
      ∀ ⦃id : ShareId⦄ ⦃entry : ConnectedShare⦄,
        chain.connected[id]? = some entry →
          ∃ updated : ConnectedShare,
            later.connected[id]? = some updated ∧
            updated.share = entry.share ∧
            (entry.validatedAncestry = true →
              updated.validatedAncestry = true))
    (samePolicy : later.difficultyPolicy = chain.difficultyPolicy)
    {entry : ConnectedShare}
    (entitled : ValidatedEntry chain entry) :
    ValidatedEntry later entry := by
  obtain ⟨branch, isBranch, expected⟩ := entitled.difficulty
  refine ⟨?_, entitled.work, branch, ?_, ?_⟩
  · refine parentValidated_mono ?_ entitled.parent
    intro id found present flagged
    obtain ⟨updated, updatedFound, _, keepsFlag⟩ := keeps present
    exact ⟨updated, updatedFound, keepsFlag flagged⟩
  · refine isBranch.mono ?_
    intro id found present
    obtain ⟨updated, updatedFound, sameShare, _⟩ := keeps present
    exact ⟨updated, updatedFound, sameShare⟩
  · rw [samePolicy]
    exact expected

end ValidatedEntry

namespace Trusted

variable {backend : Backend} {chain : ShareChain}

/-- The empty chain makes no promise about validation. -/
theorem empty
    (policy : Option DifficultyPolicy)
    (parameterId : Option Hash256) :
    Trusted { difficultyPolicy := policy, parameterId := parameterId } where
  validated := by simp
  orphanWork := by simp

/-- Only the connected entries carry flags. -/
theorem of_sameConnected
    (trusted : Trusted chain)
    {later : ShareChain}
    (sameConnected : later.connected = chain.connected)
    (samePolicy : later.difficultyPolicy = chain.difficultyPolicy)
    (orphanWork :
      ∀ ⦃id : ShareId⦄ ⦃orphan : OrphanShare⦄,
        later.orphans[id]? = some orphan →
          ConsistentPow orphan.powValidation) :
    Trusted later := by
  refine ⟨?_, orphanWork⟩
  intro id entry found flagged
  rw [sameConnected] at found
  refine (trusted.validated found flagged).mono ?_ samePolicy
  intro other old present
  rw [sameConnected]
  exact ⟨old, present, rfl, fun kept => kept⟩

/-- An attached entry is flagged only when it is entitled to the flag. -/
theorem attach
    (trusted : Trusted chain)
    {branch : List Share}
    {record : OrphanShare}
    (consistent : ConsistentPow record.powValidation)
    (fresh : chain.connected[record.id]? = none)
    (isBranch : Branch chain.connected record.share.parentId branch)
    (admitted :
      branchVerdict chain.difficultyPolicy branch record.share
        record.enforceSidechainDifficulty = .ok .none) :
    Trusted (chain.attach branch record) := by
  have keeps :
      ∀ ⦃id : ShareId⦄ ⦃entry : ConnectedShare⦄,
        chain.connected[id]? = some entry →
          ∃ updated : ConnectedShare,
            (chain.attach branch record).connected[id]? = some updated ∧
            updated.share = entry.share ∧
            (entry.validatedAncestry = true →
              updated.validatedAncestry = true) :=
    fun _ entry present =>
      ⟨entry, (getElem?_insert_fresh fresh _).mpr (.inr present), rfl, id⟩
  constructor
  case validated =>
    intro id entry found flagged
    rcases (getElem?_insert_fresh fresh _).mp found with
      ⟨rfl, rfl⟩ | present
    · -- The flag of a fresh entry is the conjunction the source computes.
      simp only [attachedEntry, branchEntry, establishesWork,
        Bool.and_eq_true, Option.any_eq_true] at flagged
      obtain ⟨⟨enforced, validation, stored, _⟩, parentFlag⟩ := flagged
      obtain ⟨_, expected, _⟩ := branchVerdict_eq_none.mp admitted
      have entitled :
          ValidatedEntry chain (chain.attachedEntry branch record) :=
        ⟨parentFlag, ⟨validation, stored, consistent stored⟩,
          branch, isBranch, expected enforced⟩
      exact entitled.mono keeps rfl
    · exact (trusted.validated present flagged).mono keeps rfl
  case orphanWork =>
    intro id orphan found
    exact trusted.orphanWork (getElem?_erase_iff.mp found).2

/-- An upgrade is entitled to its flag and keeps all others. -/
theorem upgrade
    (trusted : Trusted chain)
    {branch : List Share}
    {id : ShareId}
    {entry : ConnectedShare}
    {validation : CandidateValidation}
    (found : chain.connected[id]? = some entry)
    (isBranch : Branch chain.connected entry.share.parentId branch)
    (expected :
      branchDifficultyRejectReason chain.difficultyPolicy branch
        entry.share = .ok .none)
    (parentFlag : chain.parentValidated entry.share.parentId = true)
    (consistent : replayValidationConsistent validation = true) :
    Trusted (chain.upgrade id entry validation) := by
  have keeps :
      ∀ ⦃other : ShareId⦄ ⦃old : ConnectedShare⦄,
        chain.connected[other]? = some old →
          ∃ updated : ConnectedShare,
            (chain.upgrade id entry validation).connected[other]? =
              some updated ∧
            updated.share = old.share ∧
            (old.validatedAncestry = true →
              updated.validatedAncestry = true) := by
    intro other old present
    by_cases same : other = id
    · subst other
      rw [found] at present
      cases present
      exact ⟨_, getElem?_insert_iff.mpr (.inl ⟨rfl, rfl⟩), rfl, fun _ => rfl⟩
    · exact ⟨old, getElem?_insert_iff.mpr (.inr ⟨same, present⟩),
        rfl, fun flagged => flagged⟩
  constructor
  case validated =>
    intro other upgraded present flagged
    rcases getElem?_insert_iff.mp present with ⟨rfl, rfl⟩ | ⟨_, old⟩
    · have entitled :
          ValidatedEntry chain { entry with
            powValidation := some validation
            validatedAncestry := true } :=
        ⟨parentFlag, ⟨validation, rfl, consistent⟩,
          branch, isBranch, expected⟩
      exact entitled.mono keeps rfl
    · exact (trusted.validated old flagged).mono keeps rfl
  case orphanWork => exact trusted.orphanWork

/-- Removing a closed set leaves every remaining flag entitled. -/
theorem retain
    (trusted : Trusted chain)
    {remaining : ShareMap ConnectedShare}
    {removed : List ShareId}
    {tip : Option ShareId}
    (retains : Retains chain.connected remaining removed) :
    Trusted (chain.retain remaining tip) := by
  constructor
  case validated =>
    intro id entry found flagged
    obtain ⟨present, kept⟩ := retains.lookup.mp found
    have entitled := trusted.validated present flagged
    obtain ⟨branch, isBranch, expected⟩ := entitled.difficulty
    have parentKept :
        entry.share.parentId ≠ 0 → entry.share.parentId ∉ removed :=
      fun nonzero parentRemoved =>
        kept (retains.closed present nonzero parentRemoved)
    refine ⟨?_, entitled.work, branch,
      Sound.branch_retain retains isBranch parentKept, expected⟩
    have parent := entitled.parent
    rw [parentValidated_iff] at parent ⊢
    rcases parent with zero | ⟨parentEntry, parentFound, parentFlag⟩
    · exact .inl zero
    · by_cases zero : entry.share.parentId = 0
      · exact .inl zero
      · exact .inr ⟨parentEntry,
          retains.lookup.mpr ⟨parentFound, parentKept zero⟩, parentFlag⟩
  case orphanWork => exact trusted.orphanWork

end Trusted

/-- Every elementary change of an insertion keeps the flag entitled. -/
theorem Growth.trusted
    {backend : Backend}
    {incoming : Option OrphanShare}
    {chain next : ShareChain}
    (consistent :
      ∀ record, incoming = some record →
        ConsistentPow record.powValidation)
    (trusted : Trusted chain)
    (growth : Growth backend incoming chain next) :
    Trusted next := by
  cases growth with
  | attach origin _ fresh isBranch admitted =>
      refine trusted.attach ?_ fresh isBranch admitted
      rcases origin with offered | buffered
      · exact consistent _ offered
      · exact trusted.orphanWork buffered
  | buffer offered _ _ _ _ _ =>
      refine trusted.of_sameConnected rfl rfl ?_
      intro id orphan found
      rcases getElem?_insert_iff.mp found with ⟨_, rfl⟩ | ⟨_, present⟩
      · exact consistent _ offered
      · exact trusted.orphanWork present
  | discard _ _ _ _ =>
      exact trusted.of_sameConnected rfl rfl fun _ _ found =>
        trusted.orphanWork (getElem?_erase_iff.mp found).2
  | unindex _ =>
      exact trusted.of_sameConnected rfl rfl trusted.orphanWork

/-- Every elementary change keeps the flag entitled. -/
theorem Change.trusted
    {backend : Backend}
    {incoming : Option OrphanShare}
    {chain next : ShareChain}
    (consistent :
      ∀ record, incoming = some record →
        ConsistentPow record.powValidation)
    (trusted : Trusted chain)
    (change : Change backend incoming chain next) :
    Trusted next := by
  cases change with
  | growth growth =>
      exact growth.trusted consistent trusted
  | upgrade found _ _ isBranch expected parentFlag consistentWork =>
      exact trusted.upgrade found isBranch expected parentFlag consistentWork
  | retain retains _ =>
      exact trusted.retain retains

end ShareChain

end ZanoP2pool
