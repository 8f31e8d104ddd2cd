import ZanoP2pool.HistoricalPayout
import ZanoP2pool.PplnsWindow
import ZanoP2pool.ShareChainOrderFree

namespace ZanoP2pool

open Foundation

/-!
# Agreement of two nodes on parent-relative values

Whatever else two chains hold, an identity that both have validated names one
path in both.  The expected difficulty, the payout window and the payout plan at
that identity are read off the path alone.
-/

namespace ShareChain

/-- A path of validated shares that two chains have in common. -/
inductive SharedPath
    (first second : ShareChain) :
    ShareId → List Share → Prop where
  | root :
      SharedPath first second 0 []
  | step
      {id : ShareId}
      {entry other : ConnectedShare}
      {rest : List Share} :
      id ≠ 0 →
      first.connected[id]? = some entry →
      second.connected[id]? = some other →
      entry.share = other.share →
      entry.validatedAncestry = true →
      other.validatedAncestry = true →
      SharedPath first second entry.share.parentId rest →
      SharedPath first second id (entry.share :: rest)

variable {backend : Backend} {first second : ShareChain}

namespace SharedPath

theorem left
    {id : ShareId}
    {path : List Share}
    (shared : SharedPath first second id path) :
    Branch first.connected id path := by
  induction shared with
  | root => exact .root
  | step nonzero found _ _ _ _ _ inductionHypothesis =>
      exact .step nonzero found inductionHypothesis

theorem right
    {id : ShareId}
    {path : List Share}
    (shared : SharedPath first second id path) :
    Branch second.connected id path := by
  induction shared with
  | root => exact .root
  | step nonzero _ otherFound sameShare _ _ _ inductionHypothesis =>
      rw [sameShare] at inductionHypothesis ⊢
      exact .step nonzero otherFound inductionHypothesis

end SharedPath

/-- Shares of both chains with one identity are one share. -/
def Compatible (first second : ShareChain) : Prop :=
  ∀ ⦃id : ShareId⦄ ⦃entry other : ConnectedShare⦄,
    first.connected[id]? = some entry →
    second.connected[id]? = some other →
      entry.share = other.share ∧ id ≠ 0

/-- An identity that both chains validated names one path in both. -/
theorem exists_sharedPath
    (compatible : Compatible first second)
    (sound : Sound backend first)
    (trusted : Trusted first)
    (otherTrusted : Trusted second)
    {id : ShareId}
    {entry other : ConnectedShare}
    (found : first.connected[id]? = some entry)
    (otherFound : second.connected[id]? = some other)
    (validated : entry.validatedAncestry = true)
    (otherValidated : other.validatedAncestry = true) :
    ∃ path, SharedPath first second id path := by
  obtain ⟨branch, below, -⟩ := sound.rooted found
  induction branch generalizing id entry other with
  | nil =>
      obtain ⟨sameShare, nonzero⟩ := compatible found otherFound
      have root : entry.share.parentId = 0 := by
        by_contra notRoot
        obtain ⟨_, _, _, shape, _⟩ := below.head notRoot
        cases shape
      have ends : SharedPath first second entry.share.parentId [] := by
        rw [root]
        exact .root
      exact ⟨_, .step nonzero found otherFound sameShare validated
        otherValidated ends⟩
  | cons share rest inductionHypothesis =>
      obtain ⟨sameShare, nonzero⟩ := compatible found otherFound
      have notRoot : entry.share.parentId ≠ 0 := by
        intro root
        rw [root] at below
        cases Branch.zero_iff.mp below
      obtain ⟨parent, older, parentFound, shape, olderBranch⟩ :=
        below.head notRoot
      obtain ⟨rfl, rfl⟩ := List.cons.inj shape
      -- The parent is validated in both chains, since its child is.
      have parentFlag : parent.validatedAncestry = true := by
        rcases parentValidated_iff.mp (trusted.validated found validated).parent
          with root | ⟨_, present, flagged⟩
        · exact (notRoot root).elim
        · rw [parentFound] at present
          cases present
          exact flagged
      obtain ⟨otherParent, otherParentFound, otherFlag⟩ :
          ∃ otherParent,
            second.connected[entry.share.parentId]? = some otherParent ∧
              otherParent.validatedAncestry = true := by
        rcases parentValidated_iff.mp
          (otherTrusted.validated otherFound otherValidated).parent with
          root | present
        · rw [← sameShare] at root
          exact (notRoot root).elim
        · rw [sameShare]
          exact present
      obtain ⟨path, shared⟩ :=
        inductionHypothesis parentFound otherParentFound parentFlag otherFlag
          olderBranch
      exact ⟨_, .step nonzero found otherFound sameShare validated
        otherValidated shared⟩

section Values

variable (samePolicy : first.difficultyPolicy = second.difficultyPolicy)

include samePolicy in
theorem requireValidatedPayoutAncestry_agrees
    {entry other : ConnectedShare}
    (sameFlag : entry.validatedAncestry = other.validatedAncestry) :
    requireValidatedPayoutAncestry first entry =
      requireValidatedPayoutAncestry second other := by
  unfold requireValidatedPayoutAncestry enforcesSidechainDifficulty
  rw [samePolicy, sameFlag]

include samePolicy in
/-- The recent work below an identity is read off the shared path. -/
theorem recentWork_agrees
    (budget : Nat)
    {id : ShareId}
    {path : List Share}
    (shared : SharedPath first second id path)
    {entry other : ConnectedShare}
    (found : first.connected[id]? = some entry)
    (otherFound : second.connected[id]? = some other)
    (nonzero : id ≠ 0) :
    recentWork first budget entry = recentWork second budget other := by
  induction budget generalizing id path entry other with
  | zero => rfl
  | succ budget inductionHypothesis =>
      cases shared with
      | root => exact (nonzero rfl).elim
      | step _ present otherPresent sameShare flag otherFlag below =>
          rw [found] at present
          rw [otherFound] at otherPresent
          cases present
          cases otherPresent
          unfold recentWork
          rw [requireValidatedPayoutAncestry_agrees samePolicy
            (flag.trans otherFlag.symm), ← sameShare]
          cases zero : isZeroShareId entry.share.parentId with
          | true => simp
          | false =>
              have notRoot := isZeroShareId_eq_false.mp zero
              obtain ⟨parent, _, parentFound, _⟩ := below.left.head notRoot
              obtain ⟨otherParent, _, otherParentFound, _⟩ :=
                below.right.head notRoot
              have older :=
                inductionHypothesis below parentFound otherParentFound notRoot
              simp only [find, parentFound, otherParentFound, older]

include samePolicy in
theorem creditShare_agrees
    {entry other : ConnectedShare}
    (sameShare : entry.share = other.share)
    (sameFlag : entry.validatedAncestry = other.validatedAncestry)
    (walk : WindowWalk) :
    creditShare backend first entry walk =
      creditShare backend second other walk := by
  unfold creditShare
  rw [requireValidatedPayoutAncestry_agrees samePolicy sameFlag, sameShare]

include samePolicy in
/-- The credited work below an identity is read off the shared path. -/
theorem creditShares_agrees
    (budget : Nat)
    (walk : WindowWalk)
    {id : ShareId}
    {path : List Share}
    (shared : SharedPath first second id path)
    {entry other : ConnectedShare}
    (found : first.connected[id]? = some entry)
    (otherFound : second.connected[id]? = some other)
    (nonzero : id ≠ 0) :
    creditShares backend first budget entry walk =
      creditShares backend second budget other walk := by
  induction budget generalizing id path entry other walk with
  | zero => rfl
  | succ budget inductionHypothesis =>
      cases shared with
      | root => exact (nonzero rfl).elim
      | step _ present otherPresent sameShare flag otherFlag below =>
          rw [found] at present
          rw [otherFound] at otherPresent
          cases present
          cases otherPresent
          unfold creditShares
          rw [creditShare_agrees samePolicy sameShare
            (flag.trans otherFlag.symm)]
          by_cases finished : walk.remaining = 0
          · rw [if_pos finished, if_pos finished]
          rw [if_neg finished, if_neg finished, ← sameShare]
          cases creditShare backend second other walk with
          | error thrown => rfl
          | ok next =>
              simp only [bind, Except.bind]
              cases zero : isZeroShareId entry.share.parentId with
              | true => simp
              | false =>
                  have notRoot := isZeroShareId_eq_false.mp zero
                  obtain ⟨parent, _, parentFound, _⟩ :=
                    below.left.head notRoot
                  obtain ⟨otherParent, _, otherParentFound, _⟩ :=
                    below.right.head notRoot
                  have older :=
                    inductionHypothesis next below parentFound
                      otherParentFound notRoot
                  simp only [find, parentFound, otherParentFound, older]

variable {id : ShareId} {path : List Share}
variable (shared : SharedPath first second id path)
variable (nonzero : id ≠ 0)

include samePolicy shared nonzero in
theorem buildPplnsWindowAtParent_agrees
    (requestedWork : ChainWork) :
    buildPplnsWindowAtParent backend first id requestedWork =
      buildPplnsWindowAtParent backend second id requestedWork := by
  obtain ⟨entry, _, found, _⟩ := shared.left.head nonzero
  obtain ⟨other, _, otherFound, _⟩ := shared.right.head nonzero
  have credits :=
    @creditShares_agrees backend first second samePolicy
      requestedWork.toNat { remaining := requestedWork.toNat } id path shared
      entry other found otherFound nonzero
  unfold buildPplnsWindowAtParent pplnsParent
  simp only [isZeroShareId_eq_false.mpr nonzero, find, found, otherFound,
    Bool.false_eq_true, if_false, bind, Except.bind, credits]

include samePolicy shared nonzero in
/-- The payout window at a shared identity is the same. -/
theorem buildSidechainPplnsWindowAtParent_agrees
    (params : SidechainParameters)
    (networkDifficulty : Difficulty128) :
    buildSidechainPplnsWindowAtParent backend first id params
        networkDifficulty =
      buildSidechainPplnsWindowAtParent backend second id params
        networkDifficulty := by
  obtain ⟨entry, _, found, _⟩ := shared.left.head nonzero
  obtain ⟨other, _, otherFound, _⟩ := shared.right.head nonzero
  have recent :=
    recentWork_agrees samePolicy params.pplnsWindowShares.toNat shared found
      otherFound nonzero
  have windows : ∀ requestedWork, _ = _ :=
    @buildPplnsWindowAtParent_agrees backend first second samePolicy id path
      shared nonzero
  unfold buildSidechainPplnsWindowAtParent pplnsParent
  simp only [isZeroShareId_eq_false.mpr nonzero, find, found, otherFound,
    Bool.false_eq_true, if_false, bind, Except.bind, recent, windows]

include samePolicy shared nonzero in
/-- The payout plan at a shared identity is the same. -/
theorem deriveHistoricalPayoutPlan_agrees
    (sameParameters : first.parameterId = second.parameterId)
    (params : SidechainParameters)
    (networkDifficulty : Difficulty128)
    (rewardAtomic : UInt64) :
    deriveHistoricalPayoutPlan backend first params id networkDifficulty
        rewardAtomic =
      deriveHistoricalPayoutPlan backend second params id networkDifficulty
        rewardAtomic := by
  have windows :=
    @buildSidechainPplnsWindowAtParent_agrees backend first second samePolicy
      id path shared nonzero params networkDifficulty
  have sameMatch :
      first.matchesSidechainParameters backend params =
        second.matchesSidechainParameters backend params := by
    unfold matchesSidechainParameters
    rw [sameParameters]
  unfold deriveHistoricalPayoutPlan
  rw [sameMatch, windows]
  cases shared with
  | root => exact (nonzero rfl).elim
  | step _ found otherFound _ flag otherFlag _ =>
      simp only [find, found, otherFound, flag, otherFlag]

end Values

end ShareChain

/-- Chains that hold shares of one distinct list are compatible. -/
theorem ShareChain.compatible_of_given
    {backend : Backend}
    {first second : ShareChain}
    {shares : List Share}
    (distinct : DistinctShareIds backend shares)
    (sound : ShareChain.Sound backend first)
    (otherSound : ShareChain.Sound backend second)
    (holds : ShareChain.HoldsOnly (· ∈ shares) first)
    (otherHolds : ShareChain.HoldsOnly (· ∈ shares) second) :
    ShareChain.Compatible first second := by
  intro id entry other found otherFound
  have keyed := (sound.keyed found).2
  have otherKeyed := (otherSound.keyed otherFound).2
  have member := holds.1 found
  refine ⟨distinct.injective _ member _ (otherHolds.1 otherFound) id keyed
    otherKeyed, ?_⟩
  rintro rfl
  exact distinct.nonzero _ member keyed

/-- A run in which no call throws holds only the shares it was given. -/
theorem runOps_holdsOnly
    {backend : Backend}
    {start chain : ShareChain}
    {ops : List ChainOp}
    (fresh : ShareChain.Fresh backend start)
    (ran : runOps backend ops start = .ok () chain) :
    ShareChain.HoldsOnly (· ∈ ops.filterMap ChainOp.share?) chain := by
  have attempted := attemptOps_of_runOps ran
  have empty :
      ShareChain.HoldsOnly (· ∈ ops.filterMap ChainOp.share?) start := by
    rcases fresh with rfl | ⟨params, built⟩
    · exact ⟨fun _ _ found => by simp at found,
        fun _ _ found => by simp at found⟩
    · obtain ⟨policy, parameterId, rfl⟩ :=
        ShareChain.ofParameters_eq_ok built
      exact ⟨fun _ _ found => by simp at found,
        fun _ _ found => by simp at found⟩
  rw [← attempted]
  refine attemptOps_holdsOnly fresh.wellFormed.sound fresh.wellFormed.trusted
    ?_ empty
  intro op member share given
  exact List.mem_filterMap.mpr ⟨op, member, given⟩

/-- What two nodes agree on at an identity. -/
structure AgreesAt
    (backend : Backend)
    (first second : ShareChain)
    (id : ShareId)
    (entry other : ConnectedShare) :
    Prop where
  path :
    ∃ path,
      Branch first.connected id path ∧ Branch second.connected id path
  cumulativeWork : entry.cumulativeWork = other.cumulativeWork
  difficulty :
    ∀ networkDifficulty,
      first.expectedChildShareDifficulty id networkDifficulty =
        second.expectedChildShareDifficulty id networkDifficulty
  window :
    ∀ params networkDifficulty,
      buildSidechainPplnsWindowAtParent backend first id params
          networkDifficulty =
        buildSidechainPplnsWindowAtParent backend second id params
          networkDifficulty
  plan :
    ∀ params networkDifficulty rewardAtomic,
      deriveHistoricalPayoutPlan backend first params id networkDifficulty
          rewardAtomic =
        deriveHistoricalPayoutPlan backend second params id networkDifficulty
          rewardAtomic

/--
Two chains with the same parameters, reached by any two runs in which no call
throws, agree on every value that is relative to an identity both have validated.
-/
theorem nodes_agree
    {backend : Backend}
    {params : SidechainParameters}
    {start first second : ShareChain}
    {ops otherOps : List ChainOp}
    (built : ShareChain.ofParameters backend params = .ok start)
    (ran : runOps backend ops start = .ok () first)
    (otherRan : runOps backend otherOps start = .ok () second)
    (distinct :
      DistinctShareIds backend
        (ops.filterMap ChainOp.share? ++ otherOps.filterMap ChainOp.share?))
    {id : ShareId}
    {entry other : ConnectedShare}
    (found : first.connected[id]? = some entry)
    (otherFound : second.connected[id]? = some other)
    (validated : entry.validatedAncestry = true)
    (otherValidated : other.validatedAncestry = true) :
    AgreesAt backend first second id entry other := by
  have fresh : ShareChain.Fresh backend start := .inr ⟨params, built⟩
  obtain ⟨⟨sound, trusted, _⟩, policy, parameters⟩ :=
    runOps_wellFormed fresh.wellFormed ran
  obtain ⟨⟨otherSound, otherTrusted, _⟩, otherPolicy, otherParameters⟩ :=
    runOps_wellFormed fresh.wellFormed otherRan
  have samePolicy : first.difficultyPolicy = second.difficultyPolicy :=
    policy.trans otherPolicy.symm
  have widen :
      ∀ {given : List Share} {chain : ShareChain},
        (∀ share ∈ given, share ∈ ops.filterMap ChainOp.share? ++
          otherOps.filterMap ChainOp.share?) →
        ShareChain.HoldsOnly (· ∈ given) chain →
        ShareChain.HoldsOnly
          (· ∈ ops.filterMap ChainOp.share? ++
            otherOps.filterMap ChainOp.share?) chain :=
    fun within holds =>
      ⟨fun _ _ present => within _ (holds.1 present),
        fun _ _ present => within _ (holds.2 present)⟩
  have compatible :=
    ShareChain.compatible_of_given distinct sound otherSound
      (widen (fun _ => List.mem_append_left _) (runOps_holdsOnly fresh ran))
      (widen (fun _ => List.mem_append_right _)
        (runOps_holdsOnly fresh otherRan))
  obtain ⟨sameShare, nonzero⟩ := compatible found otherFound
  obtain ⟨path, shared⟩ :=
    ShareChain.exists_sharedPath compatible sound trusted otherTrusted found
      otherFound validated otherValidated
  refine ⟨⟨path, shared.left, shared.right⟩, ?_, ?_, ?_, ?_⟩
  · obtain ⟨below, isBelow, _, work⟩ := sound.rooted found
    obtain ⟨otherBelow, isOtherBelow, _, otherWork⟩ :=
      otherSound.rooted otherFound
    have same : entry.share :: below = other.share :: otherBelow := by
      have ours : Branch first.connected id (entry.share :: below) :=
        .step nonzero found isBelow
      have theirs : Branch second.connected id (other.share :: otherBelow) :=
        .step nonzero otherFound isOtherBelow
      rw [ours.unique shared.left, theirs.unique shared.right]
    apply BitVec.eq_of_toNat_eq
    rw [work, otherWork, same]
  · intro networkDifficulty
    obtain ⟨configuration, parameterId, rfl⟩ :=
      ShareChain.ofParameters_eq_ok built
    rw [ShareChain.expectedChildShareDifficulty_eq sound.rooted policy
        shared.left,
      ShareChain.expectedChildShareDifficulty_eq otherSound.rooted otherPolicy
        shared.right]
  · intro asked networkDifficulty
    exact ShareChain.buildSidechainPplnsWindowAtParent_agrees samePolicy
      shared nonzero asked networkDifficulty
  · intro asked networkDifficulty rewardAtomic
    exact ShareChain.deriveHistoricalPayoutPlan_agrees samePolicy shared
      nonzero (parameters.trans otherParameters.symm) asked networkDifficulty
      rewardAtomic

/-- Another node gets the root first, and a fork that it prunes. -/
def sampleOtherOps : List ChainOp :=
  [ .submit (sampleShare 0 0 0 1) sampleContext 1000 .light
  , .submit (sampleShare 1 1 1 1) sampleContext 1000 .light
  , .submit (sampleShare 1 1 4 1) sampleContext 1000 .light
  , .prune 5 ]

/-- Both nodes have validated share 2 and agree on everything at it. -/
theorem sampleNodes_agree :
    ∃ entry other,
      AgreesAt sampleBackend
        (finalState (runOps sampleBackend sampleOps sampleStart))
        (finalState (runOps sampleBackend sampleOtherOps sampleStart)) 2
        entry other := by
  obtain ⟨entry, found, flag⟩ :
      ∃ entry,
        (finalState (runOps sampleBackend sampleOps
          sampleStart)).connected[(2 : ShareId)]? = some entry ∧
        entry.validatedAncestry = true := by
    refine ⟨_, Option.some_get (by decide +kernel) |>.symm, ?_⟩
    decide +kernel
  obtain ⟨other, otherFound, otherFlag⟩ :
      ∃ entry,
        (finalState (runOps sampleBackend sampleOtherOps
          sampleStart)).connected[(2 : ShareId)]? = some entry ∧
        entry.validatedAncestry = true := by
    refine ⟨_, Option.some_get (by decide +kernel) |>.symm, ?_⟩
    decide +kernel
  exact ⟨entry, other,
    nodes_agree sampleStart_built (eq_ok_of_succeeds (by decide +kernel))
      (eq_ok_of_succeeds (by decide +kernel)) (by decide +kernel) found
      otherFound flag otherFlag⟩

end ZanoP2pool
