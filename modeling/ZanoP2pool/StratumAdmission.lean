import ZanoP2pool.StratumJobs

namespace ZanoP2pool

open Foundation

/-!
# Submitted work is admissible

Work was issued below a parent with the difficulty the chain expected there.  While
the miner searches, the chain moves on, but the line below the parent stays what it
was, so a submission whose hash meets the wire target passes the rules it was issued
under.
-/

namespace ShareChain

variable {backend : Backend} {policy : DifficultyPolicy}
variable {chain final : ShareChain} {branch : List Share} {share : Share}
variable {trustedContext : ShareWorkContext} {now : UInt64}
variable {mode : ProgPowZContextMode}

/-- A share that extends a connected branch as the branch prescribes. -/
structure Prescribed
    (policy : DifficultyPolicy)
    (chain : ShareChain)
    (branch : List Share)
    (share : Share)
    (trustedContext : ShareWorkContext)
    (now : UInt64) :
    Prop where
  configured : chain.difficultyPolicy = some policy
  isBranch : Branch chain.connected share.parentId branch
  height : ExtendsLine branch share.shareHeight
  expected :
    branchExpectedDifficulty policy branch share.networkDifficulty =
      .ok share.shareDifficulty
  positive : share.shareDifficulty ≠ 0
  below : share.shareDifficulty ≤ share.networkDifficulty
  context : trustedContextRejectReason share trustedContext = .none
  timely : absoluteTimestampRejectReason share now = .none

namespace Prescribed

theorem networkPositive
    (prescribed : Prescribed policy chain branch share trustedContext now) :
    share.networkDifficulty ≠ 0 := by
  intro zero
  have below := prescribed.below
  rw [zero] at below
  exact prescribed.positive (BitVec.le_zero_iff.mp below)

/-- A prescribed share is malformed at most by its version. -/
theorem structural
    (prescribed : Prescribed policy chain branch share trustedContext now) :
    structuralRejectReason chain.difficultyPolicy share = .none ∨
      structuralRejectReason chain.difficultyPolicy share =
        .unexpectedShareVersion := by
  have height := prescribed.height
  unfold structuralRejectReason
  simp only
  split_ifs with version zeroShare zeroNetwork above root raised grounded
  · exact .inr rfl
  · rw [difficulty128IsZero_eq_false.mpr prescribed.positive] at zeroShare
    cases zeroShare
  · rw [difficulty128IsZero_eq_false.mpr prescribed.networkPositive] at zeroNetwork
    cases zeroNetwork
  · exact absurd above (BitVec.not_lt.mpr prescribed.below)
  · have isBranch := prescribed.isBranch
    rw [isZeroShareId_iff.mp root] at isBranch
    rw [Branch.zero_iff.mp isBranch] at height
    exact absurd height raised
  · exact .inl rfl
  · obtain ⟨parent, rest, _, shape, _⟩ :=
      prescribed.isBranch.head (isZeroShareId_eq_false.mp
        (Bool.not_eq_true _ ▸ root))
    rw [shape] at height
    have bounded : parent.share.shareHeight.toNat ≠ 2 ^ 64 - 1 := fun same =>
      height.1 (UInt64.toNat_inj.mp same)
    have grows := UInt64.toNat_add parent.share.shareHeight 1
    rw [← height.2, grounded] at grows
    have fits := parent.share.shareHeight.toNat_lt
    have zero : (0 : UInt64).toNat = 0 := rfl
    have one : (1 : UInt64).toNat = 1 := rfl
    omega
  · exact .inl rfl

/-- The rules of the branch refuse a prescribed share for two reasons at most. -/
theorem verdict
    (prescribed : Prescribed policy chain branch share trustedContext now)
    {reason : ShareRejectReason}
    (judged : branchVerdict chain.difficultyPolicy branch share true = .ok reason) :
    reason = .none ∨ reason = .timestampBeforeParentTolerance ∨
      reason = .cumulativeWorkOverflow := by
  have link :
      branchLinkRejectReason share branch = .none ∨
        branchLinkRejectReason share branch = .timestampBeforeParentTolerance := by
    have height := prescribed.height
    cases branch with
    | nil => exact .inl rfl
    | cons parent rest =>
        simp only [branchLinkRejectReason, parentLinkRejectReason,
          parentTimestampRejectReason]
        rw [if_neg (not_or.mpr ⟨height.1, not_not.mpr height.2⟩)]
        split_ifs
        · exact .inl rfl
        · exact .inr rfl
        · exact .inl rfl
  unfold branchVerdict at judged
  rcases link with linked | late
  swap
  · rw [late] at judged
    cases judged
    exact .inr (.inl rfl)
  rw [linked, prescribed.configured] at judged
  simp only [branchDifficultyRejectReason, prescribed.expected, bind, Except.bind,
    pure, Except.pure, ne_eq, not_true_eq_false, if_false, if_true] at judged
  split_ifs at judged
  · exact .inl (Except.ok.inj judged).symm
  · exact .inr (.inr (Except.ok.inj judged).symm)

end Prescribed

/-- Whether a share is refused before the work is looked at. -/
theorem submitShare_beforeWork
    {id : ShareId}
    (keyed : shareId backend share = .ok id)
    (chain : ShareChain)
    (trustedContext : ShareWorkContext)
    (now : UInt64)
    (mode : ProgPowZContextMode) :
    ((chain.contains id || chain.isOrphan id) = true →
      submitShare backend share trustedContext now mode chain =
        .ok { id, disposition := .duplicate } chain) ∧
    ((chain.contains id || chain.isOrphan id) = false →
      structuralRejectReason chain.difficultyPolicy share ≠ .none →
      submitShare backend share trustedContext now mode chain =
        .ok
          { id, disposition := .rejected
            rejectReason :=
              structuralRejectReason chain.difficultyPolicy share }
          chain) := by
  unfold submitShare
  rw [keyed, bind_of_ok (orThrow_ok _ _), get_bind_apply]
  constructor
  · intro known
    rw [if_pos known]
    rfl
  · intro unknown malformed
    rw [unknown]
    simp only [Bool.false_eq_true, if_false, malformed, ne_eq,
      not_false_eq_true, if_true]
    rfl

/-- The evaluation of a share whose work was hashed. -/
def hashedValidation (share : Share) (pow : ProgPowZResult) : CandidateValidation :=
  let meetsShareDifficulty :=
    decide (pow.finalHash.toNat * share.shareDifficulty.toNat < 2 ^ 256)
  let meetsNetworkDifficulty :=
    decide (pow.finalHash.toNat * share.networkDifficulty.toNat < 2 ^ 256)
  { pow
    meetsShareDifficulty
    meetsNetworkDifficulty
    classification :=
      if meetsNetworkDifficulty then .block
      else if meetsShareDifficulty then .share
      else .invalid }

/-- Hashed work is a block exactly when it meets the network difficulty. -/
theorem hashedValidation_block
    (share : Share)
    (pow : ProgPowZResult) :
    (hashedValidation share pow).classification = .block ↔
      pow.finalHash.toNat * share.networkDifficulty.toNat < 2 ^ 256 := by
  unfold hashedValidation
  simp only [decide_eq_true_eq]
  split_ifs with block counted
  · exact iff_of_true rfl block
  · exact iff_of_false (by decide) block
  · exact iff_of_false (by decide) block

namespace Prescribed

variable {pow : ProgPowZResult} {id : ShareId}

theorem submissionValidation_eq
    (prescribed : Prescribed policy chain branch share trustedContext now)
    (hashed :
      backend.progpowzHash trustedContext.zanoHeight
          trustedContext.miningHeaderHash share.nonce mode =
        .ok pow) :
    submissionValidation backend share trustedContext mode =
      .ok (hashedValidation share pow) := by
  obtain ⟨_, _, sameNetwork⟩ :=
    trustedContextRejectReason_eq_none prescribed.context
  unfold submissionValidation validateCandidate
  rw [← sameNetwork, hashed]
  simp only [bind, Except.bind, hashMeetsDifficulty_product prescribed.positive,
    hashMeetsDifficulty_product prescribed.networkPositive]
  rfl

/-- A hash that meets the share difficulty or the network's is not invalid. -/
theorem hashedValidation_valid
    (meets : pow.finalHash.toNat * share.shareDifficulty.toNat < 2 ^ 256) :
    (hashedValidation share pow).classification ≠ .invalid := by
  unfold hashedValidation
  simp only [meets, decide_true, if_true]
  split_ifs <;> decide

/-- A prescribed share is vetted when its version is expected and its work counts. -/
theorem vetSubmission_eq
    (prescribed : Prescribed policy chain branch share trustedContext now)
    (keyed : shareId backend share = .ok id)
    (available : backend.progpowzAvailable = true)
    (hashed :
      backend.progpowzHash trustedContext.zanoHeight
          trustedContext.miningHeaderHash share.nonce mode =
        .ok pow) :
    vetSubmission backend chain.difficultyPolicy share trustedContext now mode =
      if structuralRejectReason chain.difficultyPolicy share = .none ∧
          pow.finalHash.toNat * share.shareDifficulty.toNat < 2 ^ 256 then
        some (submissionRecord chain.difficultyPolicy share id
          (hashedValidation share pow))
      else
        none := by
  unfold vetSubmission
  simp only [keyed, prescribed.submissionValidation_eq hashed, prescribed.context,
    prescribed.timely, available, true_and]
  by_cases meets :
      pow.finalHash.toNat * share.shareDifficulty.toNat < 2 ^ 256
  · have valid := hashedValidation_valid meets
    have counted : (hashedValidation share pow).meetsShareDifficulty = true :=
      decide_eq_true meets
    simp only [valid, counted, meets, ne_eq, not_false_eq_true, and_true]
  · have short : (hashedValidation share pow).meetsShareDifficulty = false :=
      decide_eq_false meets
    simp only [short, meets, Bool.false_eq_true, false_and, and_false, if_false]

/-- The reasons for which the chain may still refuse prescribed work. -/
def MayRefuse (reason : ShareRejectReason) : Prop :=
  reason = .unexpectedShareVersion ∨
    reason = .timestampBeforeParentTolerance ∨
    reason = .cumulativeWorkOverflow

/-- What the chain makes of a prescribed share whose hash meets its difficulty. -/
theorem submitShare_meets
    (sound : Sound backend chain)
    (prescribed : Prescribed policy chain branch share trustedContext now)
    (keyed : shareId backend share = .ok id)
    (available : backend.progpowzAvailable = true)
    (hashed :
      backend.progpowzHash trustedContext.zanoHeight
          trustedContext.miningHeaderHash share.nonce mode =
        .ok pow)
    (meets : pow.finalHash.toNat * share.shareDifficulty.toNat < 2 ^ 256)
    {added : AddShareResult}
    (submitted :
      submitShare backend share trustedContext now mode chain =
        .ok added final) :
    (added.disposition = .connected ∧
        ∃ entry,
          final.find id = some entry ∧
            entry.powValidation = some (hashedValidation share pow)) ∨
      ((added.disposition = .duplicate ∨ added.disposition = .rejected) ∧
        ((chain.contains id || chain.isOrphan id) = true ∨
          MayRefuse added.rejectReason)) := by
  obtain ⟨duplicates, malforms⟩ :=
    submitShare_beforeWork keyed chain trustedContext now mode
  by_cases known : (chain.contains id || chain.isOrphan id) = true
  · rw [duplicates known] at submitted
    cases submitted
    exact .inr ⟨.inl rfl, .inl known⟩
  rw [Bool.not_eq_true] at known
  rcases prescribed.structural with structural | version
  swap
  · rw [malforms known (by rw [version]; decide)] at submitted
    cases submitted
    exact .inr ⟨.inr rfl, .inr (.inl version)⟩
  have vetted := prescribed.vetSubmission_eq keyed available hashed
  rw [if_pos ⟨structural, meets⟩] at vetted
  have outcome :
      AddOutcome backend chain
        (submissionRecord chain.difficultyPolicy share id
          (hashedValidation share pow))
        (submitShare backend share trustedContext now mode chain) := by
    rw [submitShare_eq_add sound.standing vetted]
    exact addPrevalidatedShare_outcome keyed sound.standing
  rw [submitted] at outcome
  cases outcome with
  | duplicate again =>
      exact absurd (known.symm.trans again) Bool.false_ne_true
  | malformed _ _ same malformed =>
      rw [← same] at malformed
      exact absurd structural malformed
  | buffered _ _ _ nonzero missing =>
      rcases prescribed.isBranch.known with zero | held
      · exact absurd zero nonzero
      · have absent := contains_eq_false_iff.mpr missing
        exact absurd (absent.symm.trans held) Bool.false_ne_true
  | refused _ _ _ isBranch judged refused =>
      cases isBranch.unique prescribed.isBranch
      have enforced :
          (submissionRecord chain.difficultyPolicy share id
            (hashedValidation share pow)).enforceSidechainDifficulty = true := by
        unfold submissionRecord
        rw [prescribed.configured]
        rfl
      rw [enforced] at judged
      rcases prescribed.verdict judged with none | late | overflow
      · exact absurd none refused
      · exact .inr ⟨.inr rfl, .inr (.inr (.inl late))⟩
      · exact .inr ⟨.inr rfl, .inr (.inr (.inr overflow))⟩
  | @connected _ _ _ fresh _ wellFormed isBranch judged promoted =>
      have growths := promoteChildren_growths id
        (sound.attach wellFormed fresh isBranch judged) none
      rw [show promoteChildren id _ = _ from promoted] at growths
      have attached := growths.keepsEntry
        ((getElem?_insert_fresh fresh _).mpr (.inl ⟨rfl, rfl⟩))
      exact .inl ⟨rfl, _, attached, rfl⟩

/-- A prescribed share whose hash misses its difficulty leaves the chain alone. -/
theorem submitShare_misses
    (prescribed : Prescribed policy chain branch share trustedContext now)
    (keyed : shareId backend share = .ok id)
    (available : backend.progpowzAvailable = true)
    (hashed :
      backend.progpowzHash trustedContext.zanoHeight
          trustedContext.miningHeaderHash share.nonce mode =
        .ok pow)
    (misses : ¬ pow.finalHash.toNat * share.shareDifficulty.toNat < 2 ^ 256)
    {added : AddShareResult}
    (submitted :
      submitShare backend share trustedContext now mode chain =
        .ok added final) :
    final = chain ∧
      (added.disposition = .duplicate ∨ added.disposition = .rejected) := by
  have unvetted := prescribed.vetSubmission_eq keyed available hashed
  rw [if_neg fun both => misses both.2] at unvetted
  rcases submitShare_unvetted unvetted with ⟨thrown, same⟩ | ⟨value, same, untaken⟩
  · rw [submitted] at same
    cases same
  · rw [submitted] at same
    cases same
    exact ⟨rfl, untaken⟩

end Prescribed

end ShareChain

/-- The parent of the issued work is the root or still connected. -/
def StratumIssuedWork.ParentKept
    (issued : StratumIssuedWork)
    (chain : ShareChain) :
    Prop :=
  ∀ binding, issued.parentBinding = some binding →
    binding.parentId = 0 ∨ chain.contains binding.parentId = true

/-- The share of issued work is prescribed as long as its parent is kept. -/
theorem Derived.prescribed
    {backend : Backend}
    {policy : DifficultyPolicy}
    {shares : List Share}
    (distinct : DistinctShareIds backend shares)
    {chain : ShareChain}
    (sound : ShareChain.Sound backend chain)
    (held : ShareChain.HoldsOnly (· ∈ shares) chain)
    (configured : chain.difficultyPolicy = some policy)
    {workTemplate : StratumTemplate}
    {issued : StratumIssuedWork}
    (derived : Derived backend policy shares workTemplate issued)
    (kept : issued.ParentKept chain)
    (session : StratumSession)
    (nonce now : UInt64) :
    ∃ branch,
      ShareChain.Prescribed policy chain branch
        (submittedShare backend chain session issued nonce now)
        issued.trustedContext now := by
  obtain ⟨binding, line, target, from_⟩ := derived
  have bound : issued.parentBinding = some binding := by
    rw [from_.derived]
    rfl
  have network :
      issued.trustedContext.networkDifficulty =
        workTemplate.networkDifficulty := by
    rw [from_.derived]
    rfl
  have parent : submittedParent chain issued =
      (binding.parentId, binding.shareHeight) := by
    unfold submittedParent
    rw [bound]
  have known :
      binding.parentId = 0 ∨
        ∃ entry, chain.connected[binding.parentId]? = some entry :=
    (kept binding bound).imp_right contains_iff_getElem?.mp
  obtain ⟨branch, isBranch⟩ := sound.standing.exists_branch known
  have same : branch = line :=
    (isBranch.line sound held).unique distinct from_.isLine
  subst same
  refine ⟨branch, configured, ?_, ?_, ?_, from_.positive, ?_, ?_, ?_⟩
  · show Branch chain.connected (submittedParent chain issued).1 branch
    rw [parent]
    exact isBranch
  · show ExtendsLine branch (submittedParent chain issued).2
    rw [parent]
    exact from_.height
  · show branchExpectedDifficulty policy branch
        issued.trustedContext.networkDifficulty = .ok issued.shareDifficulty
    rw [network]
    exact from_.expected
  · show issued.shareDifficulty ≤ issued.trustedContext.networkDifficulty
    rw [network]
    exact from_.below
  · simp only [ShareChain.trustedContextRejectReason, submittedShare, ne_eq,
      not_true_eq_false, if_false]
  · unfold ShareChain.absoluteTimestampRejectReason
    exact if_neg fun late => UInt64.lt_irrefl now late.1

/--
After any run of a full node, new work of the current job below a kept parent is
accepted when its hash meets the wire target, but for the reasons that the job does
not settle; it is refused and leaves the chain alone when the hash misses the target;
and it is a block when it is accepted and its hash meets the network difficulty.
-/
theorem issuedWork_admissible
    {backend : Backend}
    {params : SidechainParameters}
    {start final : StratumServer}
    (started : start.Started backend)
    (shared : start.sharedChain = true)
    (built : ShareChain.ofParameters backend params = .ok start.chain)
    (ops : List StratumOp)
    (distinct :
      DistinctShareIds backend
        ((chainHistory backend ops start).filterMap ChainOp.share?))
    {sessionId : UInt64}
    {session : StratumSession}
    {issued : StratumIssuedWork}
    {submission : StratumSubmission}
    {now : UInt64}
    {mode : ProgPowZContextMode}
    {pow : ProgPowZResult}
    {result : StratumSubmissionResult}
    (found :
      (attemptStratum backend ops start).sessions.findSession sessionId =
        some session)
    (loggedIn : session.loggedIn = true)
    (current : session.currentWork = some issued)
    (header : submission.headerHash = issued.wireWork.headerHash)
    (fresh :
      (issued.jobVersion, submission.nonce) ∉
        (attemptStratum backend ops start).seenNonces sessionId)
    (kept : issued.ParentKept (attemptStratum backend ops start).chain)
    (available : backend.progpowzAvailable = true)
    (hashed :
      backend.progpowzHash issued.trustedContext.zanoHeight
          issued.trustedContext.miningHeaderHash submission.nonce mode =
        .ok pow)
    (returned :
      StratumServer.submit backend sessionId submission now mode
          (attemptStratum backend ops start) =
        .ok result final) :
    (pow.finalHash ≤ issued.wireWork.shareTarget.bigEndian →
      ¬ result.Refused ∨
        (result.disposition = .rejected ∧
          (ShareChain.Prescribed.MayRefuse result.rejectReason ∨
            ((attemptStratum backend ops start).chain.contains result.shareId ||
              (attemptStratum backend ops start).chain.isOrphan
                result.shareId) = true))) ∧
    (issued.wireWork.shareTarget.bigEndian < pow.finalHash →
      result.disposition = .rejected ∧
        final.chain = (attemptStratum backend ops start).chain) ∧
    (result.disposition = .blockCandidate ↔
      ¬ result.Refused ∧
        pow.finalHash.toNat *
          issued.trustedContext.networkDifficulty.toNat < 2 ^ 256) := by
  obtain ⟨policy, beginning⟩ := started.orderly shared built
    ((chainHistory backend ops start).filterMap ChainOp.share?)
  obtain ⟨_, orderly⟩ := beginning.run distinct ops fun _ given => given
  obtain ⟨workTemplate, derived⟩ :=
    ((orderly.sessions.sessions _ _ found).current _ current).derived
  obtain ⟨branch, prescribed⟩ :=
    derived.prescribed distinct orderly.sound orderly.held orderly.configured
      kept session submission.nonce now
  have target := derived.consistent.target
  have pending := StratumServer.pendingWork?_eq_some.mpr
    ⟨found, current, loggedIn, header.symm, fresh⟩
  rcases StratumServer.submit_eq_ok returned with ⟨missing, _⟩ |
    ⟨_, _, id, added, chosen, keyed, submitted, rfl⟩
  · rw [pending] at missing
    cases missing
  rw [pending] at chosen
  cases chosen
  have meets_iff :
      pow.finalHash ≤ issued.wireWork.shareTarget.bigEndian ↔
        pow.finalHash.toNat * issued.shareDifficulty.toNat < 2 ^ 256 := by
    rw [BitVec.le_def, target]
    exact le_target_iff (Difficulty128.toNat_ne_zero prescribed.positive)
  by_cases meets :
      pow.finalHash.toNat * issued.shareDifficulty.toNat < 2 ^ 256
  swap
  · obtain ⟨unchanged, untaken⟩ :=
      prescribed.submitShare_misses keyed available hashed meets submitted
    rw [StratumServer.submissionResult_untaken untaken]
    refine ⟨fun within => absurd (meets_iff.mp within) meets,
      fun _ => ⟨rfl, unchanged⟩, iff_of_false ?_ ?_⟩
    · rintro ⟨⟩
    · rintro ⟨taken, _⟩
      exact taken (StratumSubmissionResult.refused_of_rejected rfl)
  have within := meets_iff.mpr meets
  rcases prescribed.submitShare_meets orderly.sound keyed available hashed meets
      submitted with
    ⟨connected, entry, foundEntry, validated⟩ | ⟨untaken, why⟩
  · rw [StratumServer.submissionResult_accepted connected foundEntry validated]
    have block_iff := ShareChain.hashedValidation_block
      (submittedShare backend (attemptStratum backend ops start).chain session
        issued submission.nonce now) pow
    have taken :
        ¬ StratumSubmissionResult.Refused
          { disposition :=
              if (ShareChain.hashedValidation
                  (submittedShare backend
                    (attemptStratum backend ops start).chain session issued
                    submission.nonce now) pow).classification = .block then
                .blockCandidate
              else
                .acceptedShare
            shareId := id
            jobVersion := issued.jobVersion } := by
      rintro ⟨notAccepted, notBlock⟩
      split_ifs at notAccepted notBlock with block
      · exact notBlock rfl
      · exact notAccepted rfl
    refine ⟨fun _ => .inl taken,
      fun above => absurd within (BitVec.not_le.mpr above), ?_⟩
    rw [and_iff_right taken]
    refine Iff.trans ?_ block_iff
    simp only
    split_ifs with block
    · exact iff_of_true rfl block
    · refine iff_of_false ?_ block
      rintro ⟨⟩
  · rw [StratumServer.submissionResult_untaken untaken]
    refine ⟨fun _ => .inr ⟨rfl, why.symm⟩,
      fun above => absurd within (BitVec.not_le.mpr above), iff_of_false ?_ ?_⟩
    · rintro ⟨⟩
    · rintro ⟨taken, _⟩
      exact taken (StratumSubmissionResult.refused_of_rejected rfl)

def sampleIssued : StratumIssuedWork where
  jobVersion := 1
  sessionId := 1
  shareDifficulty := 1
  wireWork :=
    { headerHash := 5
      seedHash := 0
      shareTarget := { bigEndian := BitVec.allOnes 256 }
      height := 7 }
  trustedContext := sampleContext
  parentBinding := some { parentId := 1, shareHeight := 1 }

def sampleMiner : StratumSession where
  id := 1
  loggedIn := true
  username := [0x6d]
  worker := [0x31]
  configuredShareDifficulty := 100000000
  currentWork := some sampleIssued

/-- The sample work is accepted, and it is no block. -/
theorem issuedWork_admissible_sample :
    ∃ result final,
      StratumServer.submit sampleBackend 1 sampleMinedSubmission 1000 .light
          (attemptStratum sampleBackend sampleReadmittedOps sampleStratum) =
        .ok result final ∧
      result.disposition ≠ .blockCandidate ∧
      (¬ result.Refused ∨
        (result.disposition = .rejected ∧
          (ShareChain.Prescribed.MayRefuse result.rejectReason ∨
            ((attemptStratum sampleBackend sampleReadmittedOps
                sampleStratum).chain.contains result.shareId ||
              (attemptStratum sampleBackend sampleReadmittedOps
                sampleStratum).chain.isOrphan result.shareId) = true))) := by
  have answered := eq_ok_of_returned (show
    returned (StratumServer.submit sampleBackend 1 sampleMinedSubmission 1000 .light
        (attemptStratum sampleBackend sampleReadmittedOps sampleStratum)) =
      some { disposition := .acceptedShare, shareId := 2, jobVersion := 1 } by
    decide +kernel)
  refine ⟨_, _, answered, by decide, ?_⟩
  have found :
      (attemptStratum sampleBackend sampleReadmittedOps
        sampleStratum).sessions.findSession 1 = some sampleMiner := by
    decide +kernel
  refine (issuedWork_admissible sampleStratum_started rfl sampleStart_built
    sampleReadmittedOps (by decide +kernel) found rfl rfl rfl (by decide +kernel)
    ?_ rfl rfl answered).1 (by decide +kernel)
  intro binding bound
  cases bound
  exact .inr (by decide +kernel)

end ZanoP2pool
