import ZanoP2pool.RetargetTotal
import ZanoP2pool.ShareChainInvariants
import ZanoP2pool.ShareChainPromotion
import ZanoP2pool.ShareSolutions

namespace ZanoP2pool

open Foundation

/-!
# The internal errors of the chain are unreachable

The errors that guard a missing parent, a duplicate, the tip or the retarget
samples are never thrown: parents of connected shares stay connected, a promotion
only meets orphans of a connected parent, and timestamps below `2 ^ 32` keep every
retarget in range.
-/

namespace ShareChain

variable {backend : Backend} {chain : ShareChain}

/-- Every share of the chain has a timestamp below `2 ^ 32`. -/
structure Timed (chain : ShareChain) : Prop where
  connected :
    ∀ ⦃id : ShareId⦄ ⦃entry : ConnectedShare⦄,
      chain.connected[id]? = some entry →
        entry.share.timestamp.toNat < 2 ^ 32
  orphans :
    ∀ ⦃id : ShareId⦄ ⦃orphan : OrphanShare⦄,
      chain.orphans[id]? = some orphan →
        orphan.share.timestamp.toNat < 2 ^ 32

/-- A vector can hold the samples of a full window. -/
def Allocates (policy : Option DifficultyPolicy) : Prop :=
  ∀ found, policy = some found →
    found.difficultyWindowShares.toNat ≤ kHistoryMaxSize

/-- What a promotion needs of the chain to end normally. -/
structure Orderly
    (backend : Backend)
    (chain : ShareChain) :
    Prop where
  sound : Sound backend chain
  timed : Timed chain
  usable :
    ∀ policy, chain.difficultyPolicy = some policy → UsablePolicy policy
  allocates : Allocates chain.difficultyPolicy
  listsOwn : ListedByParent chain

theorem structural_networkDifficulty
    {policy : Option DifficultyPolicy}
    {share : Share}
    (accepted : structuralRejectReason policy share = .none) :
    share.networkDifficulty ≠ 0 := by
  simp only [structuralRejectReason] at accepted
  split_ifs at accepted with _ _ zero
  · exact difficulty128IsZero_eq_false.mp (Bool.not_eq_true _ ▸ zero)
  · exact difficulty128IsZero_eq_false.mp (Bool.not_eq_true _ ▸ zero)

section Verdicts

theorem mem_branchSamples
    {branch : List Share}
    {sample : SidechainDifficultySample}
    (member : sample ∈ branchSamples branch) :
    ∃ share ∈ branch, sample.timestamp = share.timestamp := by
  induction branch with
  | nil => cases member
  | cons share rest inductionHypothesis =>
      rcases List.mem_cons.mp member with rfl | older
      · exact ⟨share, List.mem_cons_self, rfl⟩
      · obtain ⟨other, inRest, same⟩ := inductionHypothesis older
        exact ⟨other, List.mem_cons_of_mem _ inRest, same⟩

variable {policy : Option DifficultyPolicy} {branch : List Share}

/-- The difficulty rule decides every share on an early branch. -/
theorem branchDifficultyRejectReason_ok
    (usable : ∀ found, policy = some found → UsablePolicy found)
    (allocates : Allocates policy)
    (early : ∀ share ∈ branch, share.timestamp.toNat < 2 ^ 32)
    {share : Share}
    (nonzero : share.networkDifficulty ≠ 0) :
    ∃ reason, branchDifficultyRejectReason policy branch share = .ok reason := by
  cases policy with
  | none => exact ⟨_, rfl⟩
  | some policy =>
      have samples :
          ∀ sample ∈ (branchSamples branch).take
              policy.difficultyWindowShares.toNat,
            sample.timestamp.toNat < 2 ^ 32 := by
        intro sample member
        obtain ⟨owner, inBranch, same⟩ :=
          mem_branchSamples (List.mem_of_mem_take member)
        rw [same]
        exact early owner inBranch
      obtain ⟨expected, computed⟩ :=
        calculateNextSidechainDifficulty_ok (usable policy rfl) samples
          nonzero
      refine ⟨if share.shareDifficulty = expected then .none
        else .unexpectedShareDifficulty, ?_⟩
      simp only [branchDifficultyRejectReason,
        branchExpectedDifficulty_eq (allocates policy rfl), computed, bind,
        Except.bind, pure, Except.pure]

/-- The admission rules decide every share on an early branch. -/
theorem branchVerdict_ok
    (usable : ∀ found, policy = some found → UsablePolicy found)
    (allocates : Allocates policy)
    (early : ∀ share ∈ branch, share.timestamp.toNat < 2 ^ 32)
    {share : Share}
    (nonzero : share.networkDifficulty ≠ 0)
    (enforce : Bool) :
    ∃ reason, branchVerdict policy branch share enforce = .ok reason := by
  obtain ⟨reason, decided⟩ :=
    branchDifficultyRejectReason_ok usable allocates early nonzero
  by_cases linked : branchLinkRejectReason share branch = .none
  · simp only [branchVerdict, linked, decided, bind, Except.bind, pure,
      Except.pure, ne_eq, not_true_eq_false, if_false]
    cases enforce with
    | false => exact ⟨_, rfl⟩
    | true =>
        by_cases admitted : reason = .none
        · exact ⟨_, by simp [admitted]; rfl⟩
        · exact ⟨_, by simp [admitted]; rfl⟩
  · exact ⟨_, branchVerdict_of_link linked⟩

theorem Timed.onBranch
    (timed : Timed chain)
    {id : ShareId}
    (isBranch : Branch chain.connected id branch) :
    ∀ share ∈ branch, share.timestamp.toNat < 2 ^ 32 := by
  intro share member
  obtain ⟨owner, entry, found, rfl⟩ := isBranch.exists_connected member
  exact timed.connected found

end Verdicts

section Promotion

/-- A promotion step keeps the chain orderly. -/
theorem Growth.orderly
    {next : ShareChain}
    (growth : Growth backend none chain next)
    (orderly : Orderly backend chain) :
    Orderly backend next := by
  have sound := growth.sound orderly.sound
  have listsOwn := growth.drains.listedByParent orderly.listsOwn
  have orphans :
      ∀ ⦃id : ShareId⦄ ⦃orphan : OrphanShare⦄,
        next.orphans[id]? = some orphan →
          orphan.share.timestamp.toNat < 2 ^ 32 :=
    fun _ _ found => orderly.timed.orphans (growth.drains.orphans found)
  cases growth with
  | @attach branch record origin wellFormed fresh isBranch admitted =>
      have buffered := origin.resolve_left (by simp)
      refine ⟨sound, ⟨?_, orphans⟩, orderly.usable, orderly.allocates,
        listsOwn⟩
      intro id entry found
      rcases (getElem?_insert_fresh fresh _).mp found with
        ⟨rfl, rfl⟩ | present
      · exact orderly.timed.orphans buffered
      · exact orderly.timed.connected present
  | buffer offered _ _ _ _ _ => cases offered
  | discard _ _ _ _ =>
      exact ⟨sound, ⟨orderly.timed.connected, orphans⟩, orderly.usable,
        orderly.allocates, listsOwn⟩
  | unindex parentId =>
      exact ⟨sound, ⟨orderly.timed.connected, orphans⟩, orderly.usable,
        orderly.allocates, listsOwn⟩

/-- Orphans of an orderly chain can be judged. -/
theorem judges_orderly
    (backend : Backend) :
    Judges backend (Orderly backend) where
  sound := fun _ orderly => orderly.sound
  listedByParent := fun _ orderly => orderly.listsOwn
  step := fun _ _ orderly growth => growth.orderly orderly
  judged := by
    intro chain id orphan branch orderly found isBranch
    obtain ⟨_, wellFormed⟩ := orderly.sound.orphanKeyed found
    exact branchVerdict_ok orderly.usable orderly.allocates
      (orderly.timed.onBranch isBranch)
      (structural_networkDifficulty wellFormed.structural)
      orphan.enforceSidechainDifficulty

end Promotion

section Calls

variable {share : Share} {record : OrphanShare}

/-- Inserting a record whose timestamp is early ends normally. -/
theorem addPrevalidatedShare_ok
    (orderly : Orderly backend chain)
    (keyed : shareId backend record.share = .ok record.id)
    (early : record.share.timestamp.toNat < 2 ^ 32) :
    ∃ value final,
      addPrevalidatedShare backend record.share record.powValidation
          record.enforceSidechainDifficulty chain =
        .ok value final := by
  by_cases known : (chain.contains record.id || chain.isOrphan record.id) = true
  · exact ⟨_, _, addPrevalidatedShare_duplicate record keyed known⟩
  rw [Bool.or_eq_true, not_or, Bool.not_eq_true, Bool.not_eq_true] at known
  have fresh := contains_eq_false_iff.mp known.1
  have notBuffered := contains_eq_false_iff.mp known.2
  by_cases structural :
      structuralRejectReason chain.difficultyPolicy record.share = .none
  swap
  · exact ⟨_, _, addPrevalidatedShare_malformed keyed fresh notBuffered
      structural⟩
  have wellFormed :
      WellFormedRecord backend chain.difficultyPolicy record :=
    ⟨keyed, structural⟩
  by_cases parentKnown :
      record.share.parentId = 0 ∨
        ∃ parent, chain.connected[record.share.parentId]? = some parent
  · obtain ⟨branch, isBranch⟩ := orderly.sound.standing.exists_branch parentKnown
    obtain ⟨reason, judged⟩ :=
      branchVerdict_ok orderly.usable orderly.allocates
        (orderly.timed.onBranch isBranch)
        (structural_networkDifficulty structural)
        record.enforceSidechainDifficulty
    rw [addPrevalidatedShare_onBranch fresh notBuffered
      orderly.sound.standing wellFormed isBranch, judged]
    by_cases admitted : reason = .none
    · subst admitted
      have attached : Orderly backend (chain.attach branch record) := by
        refine ⟨orderly.sound.attach wellFormed fresh isBranch judged,
          ⟨?_, ?_⟩, orderly.usable, orderly.allocates, ?_⟩
        · intro id entry found
          rcases (getElem?_insert_fresh fresh _).mp found with
            ⟨rfl, rfl⟩ | present
          · exact early
          · exact orderly.timed.connected present
        · intro id orphan found
          exact orderly.timed.orphans (getElem?_erase_iff.mp found).2
        · intro parentId id orphan listed found
          exact orderly.listsOwn listed (getElem?_erase_iff.mp found).2
      obtain ⟨count, final, ran⟩ :=
        (judges_orderly backend).promoteChildren_returns attached
          (contains_attach.mpr (.inl rfl))
      simp only [ran]
      exact ⟨_, _, rfl⟩
    · cases reason with
      | none => exact absurd rfl admitted
      | _ => exact ⟨_, _, rfl⟩
  · rw [not_or, not_exists] at parentKnown
    exact ⟨_, _, addPrevalidatedShare_waiting fresh notBuffered wellFormed
      parentKnown.1 (Option.eq_none_iff_forall_ne_some.mpr parentKnown.2)⟩

/-- The difficulty check of the chain decides every share. -/
theorem expectedDifficultyRejectReason_ok
    (orderly : Orderly backend chain)
    (nonzero : share.networkDifficulty ≠ 0) :
    ∃ reason, chain.expectedDifficultyRejectReason share = .ok reason := by
  by_cases parentKnown :
      share.parentId = 0 ∨
        ∃ parent, chain.connected[share.parentId]? = some parent
  · obtain ⟨branch, isBranch⟩ := orderly.sound.standing.exists_branch parentKnown
    rw [expectedDifficultyRejectReason_eq orderly.sound.rooted isBranch]
    exact branchDifficultyRejectReason_ok orderly.usable orderly.allocates
      (orderly.timed.onBranch isBranch) nonzero
  · rw [not_or, not_exists] at parentKnown
    have missing : chain.contains share.parentId = false :=
      contains_eq_false_iff.mpr
        (Option.eq_none_iff_forall_ne_some.mpr parentKnown.2)
    refine ⟨.none, ?_⟩
    simp [expectedDifficultyRejectReason,
      isZeroShareId_eq_false.mpr parentKnown.1, missing]

/-- The proof-of-work oracle answers every call. -/
def OracleTotal (backend : Backend) : Prop :=
  ∀ height miningHeaderHash nonce mode,
    ∃ result,
      backend.progpowzHash height miningHeaderHash nonce mode = .ok result

theorem trustedContextRejectReason_eq_none
    {trustedContext : ShareWorkContext}
    (accepted : trustedContextRejectReason share trustedContext = .none) :
    share.zanoHeight = trustedContext.zanoHeight ∧
      share.miningHeaderHash = trustedContext.miningHeaderHash ∧
      share.networkDifficulty = trustedContext.networkDifficulty := by
  unfold trustedContextRejectReason at accepted
  split_ifs at accepted with height header network
  exact ⟨not_ne_iff.mp height, not_ne_iff.mp header, not_ne_iff.mp network⟩

/-- A submission of a serializable early share ends normally. -/
theorem submitShare_ok
    (total : OracleTotal backend)
    (orderly : Orderly backend chain)
    {id : ShareId}
    (keyed : shareId backend share = .ok id)
    (early : share.timestamp.toNat < 2 ^ 32)
    (trustedContext : ShareWorkContext)
    (now : UInt64)
    (mode : ProgPowZContextMode) :
    ∃ value final,
      submitShare backend share trustedContext now mode chain =
        .ok value final := by
  unfold submitShare
  rw [keyed, bind_of_ok (orThrow_ok _ _), get_bind_apply]
  by_cases known : (chain.contains id || chain.isOrphan id) = true
  · rw [if_pos known]
    exact ⟨_, _, rfl⟩
  rw [if_neg known]
  by_cases structural :
      structuralRejectReason chain.difficultyPolicy share = .none
  swap
  · simp only [structural, ne_eq, not_false_eq_true, if_true]
    exact ⟨_, _, rfl⟩
  by_cases context : trustedContextRejectReason share trustedContext = .none
  swap
  · simp only [structural, context, ne_eq, not_false_eq_true,
      not_true_eq_false, if_true, if_false]
    exact ⟨_, _, rfl⟩
  by_cases timestamp : absoluteTimestampRejectReason share now = .none
  swap
  · simp only [structural, context, timestamp, ne_eq, not_false_eq_true,
      not_true_eq_false, if_true, if_false]
    exact ⟨_, _, rfl⟩
  simp only [structural, context, timestamp, ne_eq, not_true_eq_false,
    if_false]
  by_cases linked : chain.submittedLinkRejectReason share = .none
  swap
  · rw [if_pos linked]
    exact ⟨_, _, rfl⟩
  rw [if_neg (not_ne_iff.mpr linked)]
  have nonzero := structural_networkDifficulty structural
  obtain ⟨reason, decided⟩ :=
    expectedDifficultyRejectReason_ok orderly nonzero
  rw [decided, bind_of_ok (orThrow_ok _ _)]
  by_cases expected : reason = .none
  swap
  · rw [if_pos expected]
    exact ⟨_, _, rfl⟩
  rw [if_neg (not_ne_iff.mpr expected)]
  unfold submitWithWork
  by_cases unavailable : (!backend.progpowzAvailable) = true
  · rw [if_pos unavailable]
    exact ⟨_, _, rfl⟩
  rw [if_neg unavailable]
  obtain ⟨_, _, sameNetwork⟩ := trustedContextRejectReason_eq_none context
  obtain ⟨pow, hashed⟩ := total trustedContext.zanoHeight
    trustedContext.miningHeaderHash share.nonce mode
  obtain ⟨validation, validated, _⟩ := validateCandidate_ok hashed
    (structuralRejectReason_eq_none structural).1 (sameNetwork ▸ nonzero)
  rw [validated, bind_of_ok (orThrow_ok _ _)]
  by_cases invalid :
      (!validation.meetsShareDifficulty ||
        validation.classification == .invalid) = true
  · rw [if_pos invalid]
    exact ⟨_, _, rfl⟩
  rw [if_neg invalid, get_bind_apply]
  exact @addPrevalidatedShare_ok backend chain
    (submissionRecord chain.difficultyPolicy share id validation)
    orderly keyed early

/-- A revalidation ends normally. -/
theorem revalidateConnectedShare_ok
    (total : OracleTotal backend)
    (orderly : Orderly backend chain)
    (id : ShareId)
    (trustedContext : ShareWorkContext)
    (now : UInt64)
    (mode : ProgPowZContextMode) :
    ∃ value final,
      revalidateConnectedShare backend id trustedContext now mode chain =
        .ok value final := by
  unfold revalidateConnectedShare
  rw [get_bind_apply]
  cases found : chain.find id with
  | none => exact ⟨_, _, rfl⟩
  | some entry =>
      simp only
      by_cases flagged : entry.validatedAncestry = true
      · rw [if_pos flagged]
        exact ⟨_, _, rfl⟩
      rw [if_neg flagged]
      by_cases configured : chain.difficultyPolicy.isNone = true
      · rw [if_pos configured]
        exact ⟨_, _, rfl⟩
      rw [if_neg configured]
      by_cases structural :
          structuralRejectReason chain.difficultyPolicy entry.share = .none
      swap
      · rw [if_pos structural]
        exact ⟨_, _, rfl⟩
      rw [if_neg (not_ne_iff.mpr structural)]
      by_cases context :
          trustedContextRejectReason entry.share trustedContext = .none
      swap
      · rw [if_pos context]
        exact ⟨_, _, rfl⟩
      rw [if_neg (not_ne_iff.mpr context)]
      by_cases timestamp :
          absoluteTimestampRejectReason entry.share now = .none
      swap
      · rw [if_pos timestamp]
        exact ⟨_, _, rfl⟩
      rw [if_neg (not_ne_iff.mpr timestamp)]
      cases chain.revalidateParentResult id entry.share with
      | some result => exact ⟨_, _, rfl⟩
      | none =>
          simp only
          have nonzero := structural_networkDifficulty structural
          obtain ⟨reason, decided⟩ :=
            expectedDifficultyRejectReason_ok orderly nonzero
          rw [decided, bind_of_ok (orThrow_ok _ _)]
          by_cases expected : reason = .none
          swap
          · rw [if_pos expected]
            exact ⟨_, _, rfl⟩
          rw [if_neg (not_ne_iff.mpr expected)]
          unfold revalidateWithWork
          by_cases unavailable : (!backend.progpowzAvailable) = true
          · rw [if_pos unavailable]
            exact ⟨_, _, rfl⟩
          rw [if_neg unavailable]
          obtain ⟨_, _, sameNetwork⟩ :=
            trustedContextRejectReason_eq_none context
          obtain ⟨pow, hashed⟩ := total trustedContext.zanoHeight
            trustedContext.miningHeaderHash entry.share.nonce mode
          obtain ⟨validation, validated, _⟩ := validateCandidate_ok hashed
            (structuralRejectReason_eq_none structural).1
            (sameNetwork ▸ nonzero)
          rw [validated, bind_of_ok (orThrow_ok _ _)]
          by_cases invalid :
              (!validation.meetsShareDifficulty ||
                validation.classification == .invalid) = true
          · rw [if_pos invalid]
            exact ⟨_, _, rfl⟩
          · rw [if_neg invalid]
            exact ⟨_, _, rfl⟩

end Calls

/-- A change keeps timestamps early if the offered record is early. -/
theorem Change.timed
    {incoming : Option OrphanShare}
    {next : ShareChain}
    (change : Change backend incoming chain next)
    (early :
      ∀ record, incoming = some record →
        record.share.timestamp.toNat < 2 ^ 32)
    (timed : Timed chain) :
    Timed next := by
  cases change with
  | growth growth =>
      cases growth with
      | attach origin _ fresh _ _ =>
          refine ⟨?_, ?_⟩
          · intro id entry found
            rcases (getElem?_insert_fresh fresh _).mp found with
              ⟨rfl, rfl⟩ | present
            · rcases origin with offered | buffered
              · exact early _ offered
              · exact timed.orphans buffered
            · exact timed.connected present
          · intro id orphan found
            exact timed.orphans (getElem?_erase_iff.mp found).2
      | buffer offered _ _ _ _ _ =>
          refine ⟨timed.connected, ?_⟩
          intro id orphan found
          rcases getElem?_insert_iff.mp found with ⟨rfl, rfl⟩ | ⟨_, present⟩
          · exact early _ offered
          · exact timed.orphans present
      | discard _ _ _ _ =>
          refine ⟨timed.connected, ?_⟩
          intro id orphan found
          exact timed.orphans (getElem?_erase_iff.mp found).2
      | unindex _ => exact ⟨timed.connected, timed.orphans⟩
  | upgrade found _ _ _ _ _ _ =>
      refine ⟨?_, timed.orphans⟩
      intro id entry present
      obtain ⟨old, oldFound, sameShare, _⟩ :=
        Sound.found_before_upgrade found present
      rw [sameShare]
      exact timed.connected oldFound
  | retain retains _ =>
      refine ⟨?_, timed.orphans⟩
      intro id entry present
      exact timed.connected (retains.lookup.mp present).1

end ShareChain

section Runs

open ShareChain

variable {backend : Backend}

/-- A call whose share, if it has one, is serializable and early. -/
def ChainOp.Acceptable (backend : Backend) (op : ChainOp) : Prop :=
  ∀ share, op.share? = some share →
    (∃ id, shareId backend share = .ok id) ∧
      share.timestamp.toNat < 2 ^ 32

/-- The invariant of runs in which every offered share is acceptable. -/
structure Runnable (backend : Backend) (chain : ShareChain) : Prop where
  wellFormed : WellFormed backend chain
  timed : Timed chain
  usable :
    ∀ policy, chain.difficultyPolicy = some policy → UsablePolicy policy
  allocates : Allocates chain.difficultyPolicy

theorem Runnable.orderly
    {chain : ShareChain}
    (runnable : Runnable backend chain) :
    Orderly backend chain where
  sound := runnable.wellFormed.sound
  timed := runnable.timed
  usable := runnable.usable
  allocates := runnable.allocates
  listsOwn := runnable.wellFormed.settled.listedByParent

/-- A chain is only configured with parameters whose retarget is defined. -/
theorem usable_of_ofParameters
    {params : SidechainParameters}
    {chain : ShareChain}
    (built : ofParameters backend params = .ok chain)
    {policy : DifficultyPolicy}
    (configured : chain.difficultyPolicy = some policy) :
    UsablePolicy policy := by
  unfold ofParameters at built
  obtain ⟨parameterId, identified, finished⟩ := except_bind_eq_ok.mp built
  cases finished
  cases configured
  obtain ⟨bytes, serialized, _⟩ := except_bind_eq_ok.mp identified
  unfold serializeSidechainParameters at serialized
  simp only [bind, Except.bind, throw, throwThe, MonadExceptOf.throw, pure,
    Except.pure] at serialized
  split_ifs at serialized with version versions target minimum window
  exact ⟨target, minimum, window⟩

theorem Runnable.fresh
    {start : ShareChain}
    (fresh : Fresh backend start)
    (allocates : Allocates start.difficultyPolicy) :
    Runnable backend start := by
  refine ⟨fresh.wellFormed, ?_, ?_, allocates⟩
  · rcases fresh with rfl | ⟨params, built⟩
    · exact ⟨by simp, by simp⟩
    · obtain ⟨policy, parameterId, rfl⟩ := ofParameters_eq_ok built
      exact ⟨by simp, by simp⟩
  · intro policy configured
    rcases fresh with rfl | ⟨params, built⟩
    · cases configured
    · exact usable_of_ofParameters built configured

/-- Every call but a restore ends normally. -/
theorem Runnable.run_ok
    (total : OracleTotal backend)
    {chain : ShareChain}
    (runnable : Runnable backend chain)
    {op : ChainOp}
    (acceptable : op.Acceptable backend)
    (notRestore : ∀ records, op ≠ .restore records) :
    ∃ next, op.run backend chain = .ok () next := by
  have orderly := runnable.orderly
  cases op with
  | submit share trustedContext now mode =>
      obtain ⟨⟨id, keyed⟩, early⟩ := acceptable share rfl
      obtain ⟨value, final, ran⟩ :=
        submitShare_ok total orderly keyed early trustedContext now mode
      exact ⟨final, bind_of_ok ran⟩
  | addUnchecked share =>
      obtain ⟨⟨id, keyed⟩, early⟩ := acceptable share rfl
      obtain ⟨value, final, ran⟩ :=
        @addPrevalidatedShare_ok backend chain (uncheckedRecord share id)
          orderly keyed early
      exact ⟨final, bind_of_ok ran⟩
  | revalidate id trustedContext now mode =>
      obtain ⟨value, final, ran⟩ :=
        revalidateConnectedShare_ok total orderly id trustedContext now mode
      exact ⟨final, bind_of_ok ran⟩
  | restore records => exact absurd rfl (notRestore records)
  | prune rootId =>
      have outcome := pruneConnectedSubtreeIds_outcome orderly.sound rootId
      generalize ran : pruneConnectedSubtreeIds rootId chain = result
        at outcome
      cases outcome with
      | absent _ => exact ⟨_, bind_of_ok ran⟩
      | removed _ _ _ _ => exact ⟨_, bind_of_ok ran⟩

/-- The invariant survives every call, also a restore that throws. -/
theorem Runnable.attempt
    (total : OracleTotal backend)
    {chain : ShareChain}
    (runnable : Runnable backend chain)
    {op : ChainOp}
    (acceptable : op.Acceptable backend) :
    Runnable backend (finalState (op.run backend chain)) := by
  obtain ⟨incoming, offered, changes⟩ :=
    ChainOp.run_changes runnable.wellFormed.sound
      runnable.wellFormed.trusted op
  have timed :=
    changes.preserves Timed
      (fun _ _ holds change => change.timed
        (fun record same => (acceptable _ (offered record same).1).2) holds)
      runnable.timed
  have usable :
      ∀ policy,
        (finalState (op.run backend chain)).difficultyPolicy = some policy →
          UsablePolicy policy := by
    rw [changes.sameConfiguration.1]
    exact runnable.usable
  have allocates :
      Allocates (finalState (op.run backend chain)).difficultyPolicy := by
    rw [changes.sameConfiguration.1]
    exact runnable.allocates
  refine ⟨?_, timed, usable, allocates⟩
  cases ran : op.run backend chain with
  | ok value next => exact (ChainOp.run_wellFormed runnable.wellFormed ran).1
  | error thrown next =>
      -- only a restore throws, before it changed anything
      cases op with
      | restore records =>
          have empty : records ≠ [] := by
            rintro rfl
            cases ran
          by_cases accepted : RestoreAccepted chain records
          · obtain ⟨count, final, succeeded, _⟩ :=
              restoreReplayValidation_ok runnable.wellFormed.sound
                runnable.wellFormed.trusted accepted
            rw [ChainOp.run, bind_of_ok succeeded] at ran
            cases ran
          · obtain ⟨other, failed⟩ :=
              restoreReplayValidation_error runnable.wellFormed.sound
                runnable.wellFormed.trusted empty accepted
            rw [ChainOp.run, bind_of_error failed] at ran
            cases ran
            exact runnable.wellFormed
      | _ =>
          obtain ⟨final, succeeded⟩ :=
            runnable.run_ok total acceptable (by simp)
          rw [ran] at succeeded
          cases succeeded

theorem Runnable.attemptOps
    (total : OracleTotal backend)
    {chain : ShareChain}
    (runnable : Runnable backend chain)
    {ops : List ChainOp}
    (acceptable : ∀ op ∈ ops, op.Acceptable backend) :
    Runnable backend (ZanoP2pool.attemptOps backend ops chain) := by
  induction ops generalizing chain with
  | nil => exact runnable
  | cons op rest inductionHypothesis =>
      obtain ⟨here, later⟩ := List.forall_mem_cons.mp acceptable
      exact inductionHypothesis (runnable.attempt total here) later

/--
While the history of a window can be allocated, no submission, insertion,
revalidation or prune throws, after any sequence of calls with serializable early
shares.
-/
theorem chainCalls_never_throw
    (total : OracleTotal backend)
    {start : ShareChain}
    (fresh : Fresh backend start)
    (allocates : Allocates start.difficultyPolicy)
    {ops : List ChainOp}
    (acceptable : ∀ op ∈ ops, op.Acceptable backend)
    {op : ChainOp}
    (callAcceptable : op.Acceptable backend)
    (notRestore : ∀ records, op ≠ .restore records) :
    ∃ next, op.run backend (attemptOps backend ops start) = .ok () next :=
  ((Runnable.fresh fresh allocates).attemptOps total acceptable).run_ok total
    callAcceptable notRestore

/-- After the sample run, connecting a further child ends normally. -/
theorem sampleCalls_never_throw :
    ∃ next,
      (ChainOp.submit (sampleShare 3 3 3 1) sampleContext 1000 .light).run
          sampleBackend (attemptOps sampleBackend sampleOps sampleStart) =
        .ok () next := by
  refine chainCalls_never_throw ?_ (.inr ⟨sampleParameters, sampleStart_built⟩)
    ?_ ?_ ?_ (by simp)
  · intro height miningHeaderHash nonce mode
    exact ⟨_, rfl⟩
  · rintro policy ⟨⟩
    decide
  · intro op member share offered
    simp only [sampleOps, List.mem_cons, List.not_mem_nil, or_false] at member
    rcases member with rfl | rfl | rfl
    · cases offered
      exact ⟨⟨2, by decide +kernel⟩, by decide⟩
    · cases offered
      exact ⟨⟨1, by decide +kernel⟩, by decide⟩
    · cases offered
      exact ⟨⟨3, by decide +kernel⟩, by decide⟩
  · intro share offered
    cases offered
    exact ⟨⟨4, by decide +kernel⟩, by decide⟩

end Runs

end ZanoP2pool
