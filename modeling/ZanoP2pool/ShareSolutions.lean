import ZanoP2pool.P2pShare
import ZanoP2pool.PplnsWindow
import ZanoP2pool.ShareChainInvariants

namespace ZanoP2pool

open Foundation

/-!
# Reuse of one proof of work

A proof of work covers the height, the header and the nonce of a share, but not
its parent.  The registry binds a header to a parent, so one solution can only be
credited twice on a path if its header is trusted for two parents.
-/

/-- What the proof of work of a share covers. -/
structure PowSolution where
  zanoHeight : UInt64
  miningHeaderHash : Hash256
  nonce : UInt64
  deriving Repr, DecidableEq

def Share.solution (share : Share) : PowSolution where
  zanoHeight := share.zanoHeight
  miningHeaderHash := share.miningHeaderHash
  nonce := share.nonce

namespace Branch

variable {connected : ShareMap ConnectedShare}

/-- The path of an identity, by the share found there. -/
theorem of_share
    {id : ShareId}
    {share : Share}
    {rest : List Share}
    (nonzero : id ≠ 0)
    (found : connected[id]?.map ConnectedShare.share = some share)
    (below : Branch connected share.parentId rest) :
    Branch connected id (share :: rest) := by
  obtain ⟨entry, present, rfl⟩ := Option.map_eq_some_iff.mp found
  exact .step nonzero present below

/-- Older shares of a path are lower. -/
theorem pairwise_height
    (linked : ShareChain.HeightLinked connected)
    {id : ShareId}
    {branch : List Share}
    (isBranch : Branch connected id branch) :
    branch.Pairwise fun newer older =>
      older.shareHeight.toNat < newer.shareHeight.toNat := by
  induction isBranch with
  | root => exact .nil
  | @step id entry rest nonzero found below inductionHypothesis =>
      refine .cons ?_ inductionHypothesis
      by_cases zero : entry.share.parentId = 0
      · rw [zero, zero_iff] at below
        subst below
        simp
      · obtain ⟨parent, parentFound, above⟩ := linked found zero
        obtain ⟨other, older, otherFound, rfl, _⟩ := below.head zero
        rw [parentFound] at otherFound
        cases otherFound
        intro share member
        rcases List.mem_cons.mp member with rfl | deeper
        · omega
        · have lower := List.rel_of_pairwise_cons inductionHypothesis deeper
          omega

/-- Two shares of a path have different parents. -/
theorem pairwise_parentId
    (linked : ShareChain.HeightLinked connected)
    {id : ShareId}
    {branch : List Share}
    (isBranch : Branch connected id branch) :
    branch.Pairwise fun newer older => newer.parentId ≠ older.parentId := by
  induction isBranch with
  | root => exact .nil
  | @step id entry rest nonzero found below inductionHypothesis =>
      have heights := (Branch.step nonzero found below).pairwise_height linked
      refine .cons ?_ inductionHypothesis
      intro older member same
      have lower := List.rel_of_pairwise_cons heights member
      by_cases zero : entry.share.parentId = 0
      · rw [zero, zero_iff] at below
        subst below
        cases member
      · obtain ⟨_, other, otherFound, rfl⟩ := below.exists_connected member
        obtain ⟨parent, parentFound, above⟩ := linked found zero
        obtain ⟨again, againFound, otherAbove⟩ :=
          linked otherFound (same ▸ zero)
        rw [← same, parentFound] at againFound
        cases againFound
        omega

end Branch

/-- A share with the context that a registry holds for exactly that share. -/
structure TrustedSubmission where
  registry : P2pTrustedWorkRegistry
  share : Share
  context : ShareWorkContext
  now : UInt64
  mode : ProgPowZContextMode
  trusted :
    registry.find share.zanoHeight share.miningHeaderHash share.parentId =
      some context

/-- The call of a trusted submission. -/
def TrustedSubmission.op (submission : TrustedSubmission) : ChainOp :=
  .submit submission.share submission.context submission.now submission.mode

/-- A registry of the run trusts a header at a height for a parent. -/
def Authorizes
    (submissions : List TrustedSubmission)
    (zanoHeight : UInt64)
    (miningHeaderHash : Hash256)
    (parentId : ShareId) :
    Prop :=
  ∃ submission ∈ submissions,
    (submission.registry.find zanoHeight miningHeaderHash parentId).isSome

/-- No header is trusted for two parents during the run. -/
def SingleParent (submissions : List TrustedSubmission) : Prop :=
  ∀ zanoHeight miningHeaderHash parentId other,
    Authorizes submissions zanoHeight miningHeaderHash parentId →
    Authorizes submissions zanoHeight miningHeaderHash other →
      parentId = other

/-- Every connected share was authorized under its own parent. -/
theorem authorizes_of_connected
    {backend : Backend}
    {start : ShareChain}
    (fresh : ShareChain.Fresh backend start)
    {submissions : List TrustedSubmission}
    {id : ShareId}
    {entry : ConnectedShare}
    (found :
      (attemptOps backend (submissions.map TrustedSubmission.op)
        start).connected[id]? = some entry) :
    Authorizes submissions entry.share.zanoHeight
      entry.share.miningHeaderHash entry.share.parentId := by
  have wellFormed := fresh.wellFormed
  have offered :
      ∀ op ∈ submissions.map TrustedSubmission.op, ∀ share,
        op.share? = some share →
          Authorizes submissions share.zanoHeight share.miningHeaderHash
            share.parentId := by
    intro op member share given
    obtain ⟨submission, inRun, rfl⟩ := List.mem_map.mp member
    cases given
    exact ⟨submission, inRun, by rw [submission.trusted]; rfl⟩
  have nothing :
      ShareChain.HoldsOnly
        (fun share =>
          Authorizes submissions share.zanoHeight share.miningHeaderHash
            share.parentId) start := by
    rcases fresh with rfl | ⟨params, built⟩
    · exact ⟨by simp, by simp⟩
    · obtain ⟨policy, parameterId, rfl⟩ :=
        ShareChain.ofParameters_eq_ok built
      exact ⟨by simp, by simp⟩
  exact (attemptOps_holdsOnly wellFormed.sound wellFormed.trusted offered
    nothing).1 found

/-- What a window credits along a path, where each solution occurs at most once. -/
structure CreditsOnce
    (branch : List Share)
    (window : PplnsWindow) :
    Prop where
  credits :
    WindowCredits (creditedShares window.requestedWork.toNat branch) window
  newest :
    (creditedShares window.requestedWork.toNat branch).map Prod.fst =
      branch.take window.includedShares
  amounts :
    ∀ credit ∈ creditedShares window.requestedWork.toNat branch,
      0 < credit.2 ∧ credit.2 ≤ difficultyOf credit.1
  once :
    ((creditedShares window.requestedWork.toNat branch).map fun credit =>
      credit.1.solution).Nodup

/-- A window along a path of different solutions credits each of them once. -/
theorem creditsOnce_of_credits
    {backend : Backend}
    {chain : ShareChain}
    (sound : ShareChain.Sound backend chain)
    {parentId : ShareId}
    {branch : List Share}
    (isBranch : Branch chain.connected parentId branch)
    (distinct : (branch.map Share.solution).Nodup)
    {window : PplnsWindow}
    (credits :
      WindowCredits (creditedShares window.requestedWork.toNat branch)
        window) :
    CreditsOnce branch window := by
  have newest :
      (creditedShares window.requestedWork.toNat branch).map Prod.fst =
        branch.take window.includedShares := by
    rw [creditedShares_fst, includedCount, credits.included]
  have positive :=
    ShareChain.branch_positive sound isBranch
  have once :
      (((creditedShares window.requestedWork.toNat branch).map Prod.fst).map
        Share.solution).Nodup := by
    rw [newest, List.map_take]
    exact distinct.sublist (List.take_sublist _ _)
  rw [List.map_map] at once
  exact ⟨credits, newest,
    fun credit member =>
      ⟨creditedShares_pos positive credit member,
        creditedShares_le credit member⟩,
    once⟩

/--
Two shares of a path with one solution have different parents, and the registry
trusted their header for both.  While no header is trusted for two parents, a path
holds each solution once, and so does what any window built along it credits.
-/
theorem solution_creditedOnce
    {backend : Backend}
    {params : SidechainParameters}
    {start : ShareChain}
    (built : ShareChain.ofParameters backend params = .ok start)
    (submissions : List TrustedSubmission)
    {parentId : ShareId}
    {branch : List Share}
    (isBranch :
      Branch
        (attemptOps backend (submissions.map TrustedSubmission.op)
          start).connected parentId branch) :
    (branch.Pairwise fun newer older =>
      newer.solution = older.solution →
        newer.parentId ≠ older.parentId ∧
        Authorizes submissions newer.zanoHeight newer.miningHeaderHash
          newer.parentId ∧
        Authorizes submissions newer.zanoHeight newer.miningHeaderHash
          older.parentId) ∧
    (SingleParent submissions →
      (branch.map Share.solution).Nodup ∧
      (∀ requestedWork window,
        buildPplnsWindowAtParent backend
            (attemptOps backend (submissions.map TrustedSubmission.op) start)
            parentId requestedWork =
          .ok window →
        CreditsOnce branch window) ∧
      ∀ windowParams networkDifficulty window,
        buildSidechainPplnsWindowAtParent backend
            (attemptOps backend (submissions.map TrustedSubmission.op) start)
            parentId windowParams networkDifficulty =
          .ok window →
        CreditsOnce branch window) := by
  have fresh : ShareChain.Fresh backend start := .inr ⟨params, built⟩
  have sound :=
    (@attemptOps_sound backend (submissions.map TrustedSubmission.op) start
      fresh.wellFormed.sound fresh.wellFormed.trusted).1
  have authorized :
      ∀ share ∈ branch,
        Authorizes submissions share.zanoHeight share.miningHeaderHash
          share.parentId := by
    intro share member
    obtain ⟨_, entry, found, rfl⟩ := isBranch.exists_connected member
    exact authorizes_of_connected fresh found
  have parents := isBranch.pairwise_parentId sound.heightLinked
  have reused :
      branch.Pairwise fun newer older =>
        newer.solution = older.solution →
          newer.parentId ≠ older.parentId ∧
          Authorizes submissions newer.zanoHeight newer.miningHeaderHash
            newer.parentId ∧
          Authorizes submissions newer.zanoHeight newer.miningHeaderHash
            older.parentId := by
    refine parents.imp_of_mem ?_
    intro newer older newerIn olderIn differ same
    have olderAuthorized := authorized older olderIn
    simp only [Share.solution, PowSolution.mk.injEq] at same
    rw [← same.1, ← same.2.1] at olderAuthorized
    exact ⟨differ, authorized newer newerIn, olderAuthorized⟩
  refine ⟨reused, ?_⟩
  intro single
  have distinct : (branch.map Share.solution).Nodup := by
    rw [List.Nodup, List.pairwise_map]
    refine reused.imp ?_
    intro newer older pair same
    obtain ⟨differ, newerAuthorized, olderAuthorized⟩ := pair same
    exact differ (single _ _ _ _ newerAuthorized olderAuthorized)
  refine ⟨distinct, ?_, ?_⟩
  · intro requestedWork window windowBuilt
    have credits :=
      ShareChain.buildPplnsWindowAtParent_credits sound isBranch windowBuilt
    rw [← ShareChain.requestedWork_of_built windowBuilt] at credits
    exact creditsOnce_of_credits sound isBranch distinct credits
  · intro windowParams networkDifficulty window windowBuilt
    exact creditsOnce_of_credits sound isBranch distinct
      (ShareChain.buildSidechainPplnsWindowAtParent_credits sound isBranch
        windowBuilt)

/-- A backend that identifies a share by its height plus one. -/
def heightBackend : Backend where
  cnFastHash := fun bytes =>
    BitVec.ofNat 256 (ofBigEndian ((bytes.drop 37).take 8) + 1)
  progpowzAvailable := true
  progpowzHash := fun _ _ _ _ =>
    .ok { finalHash := BitVec.ofNat 256 (2 ^ 255), mixHash := 0 }

/-- The fresh chain of the sample parameters under the height backend. -/
def reuseStart : ShareChain :=
  { sampleStart with parameterId := some 65537 }

/-- A registry that trusts some contexts, each for one parent. -/
def reuseRegistry
    (trusted : List (ShareWorkContext × ShareId)) :
    P2pTrustedWorkRegistry where
  contexts := trusted.foldl
    (fun contexts entry =>
      contexts.insert (P2pTrustedWorkRegistry.keyOf entry.1 entry.2)
        { context := entry.1, zanoParentHash := none }) ∅

/-- The context of a later template. -/
def nextContext : ShareWorkContext :=
  { sampleContext with miningHeaderHash := 6 }

/-- The share of another miner that solves the later template. -/
def nextShare : Share :=
  { sampleShare 1 1 3 1 with miningHeaderHash := 6, minerId := 8 }

/-- A root and its child, each under a header trusted for its parent only. -/
def sampleOnce : List TrustedSubmission :=
  [ { registry := reuseRegistry [(sampleContext, 0)]
      share := sampleShare 0 0 3 1
      context := sampleContext
      now := 1000
      mode := .light
      trusted := by decide +kernel }
  , { registry := reuseRegistry [(sampleContext, 0), (nextContext, 1)]
      share := nextShare
      context := nextContext
      now := 1000
      mode := .light
      trusted := by decide +kernel } ]

/-- The window at the child of the sample. -/
def sampleOnceWindow : PplnsWindow where
  requestedWork := 2
  coveredWork := 2
  includedShares := 2
  complete := true
  miners :=
    [ { minerId := 8, work := 1, payout := none }
    , { minerId := 9, work := 1, payout := none } ]

/-- Such a registry trusts nothing but the given contexts. -/
theorem reuseRegistry_find
    {trusted : List (ShareWorkContext × ShareId)}
    {zanoHeight : UInt64}
    {miningHeaderHash : Hash256}
    {parentId : ShareId}
    (found :
      ((reuseRegistry trusted).find zanoHeight miningHeaderHash
        parentId).isSome) :
    ∃ entry ∈ trusted,
      entry.1.miningHeaderHash = miningHeaderHash ∧ entry.2 = parentId := by
  rw [P2pTrustedWorkRegistry.find, Option.isSome_map] at found
  obtain ⟨_, stored⟩ := Option.isSome_iff_exists.mp found
  rw [reuseRegistry] at stored
  -- The accumulated map holds what it held before and what was folded in.
  suffices folded :
      ∀ contexts : Std.ExtTreeMap TrustedWorkKey TrustedWorkEntry,
        (∀ {entry : TrustedWorkEntry},
          contexts[({ zanoHeight, miningHeaderHash, parentId } :
            TrustedWorkKey)]? ≠ some entry) →
        ∀ {entry : TrustedWorkEntry},
          (trusted.foldl
            (fun contexts entry =>
              contexts.insert (P2pTrustedWorkRegistry.keyOf entry.1 entry.2)
                { context := entry.1, zanoParentHash := none })
            contexts)[({ zanoHeight, miningHeaderHash, parentId } :
              TrustedWorkKey)]? = some entry →
          ∃ entry ∈ trusted,
            entry.1.miningHeaderHash = miningHeaderHash ∧
              entry.2 = parentId by
    exact folded ∅ (by simp) stored
  clear stored found
  induction trusted with
  | nil =>
      intro contexts absent entry present
      exact (absent present).elim
  | cons head rest inductionHypothesis =>
      intro contexts absent entry present
      by_cases same :
          ({ zanoHeight, miningHeaderHash, parentId } : TrustedWorkKey) =
            P2pTrustedWorkRegistry.keyOf head.1 head.2
      · exact ⟨head, by simp, (congrArg TrustedWorkKey.miningHeaderHash
          same).symm, (congrArg TrustedWorkKey.parentId same).symm⟩
      · obtain ⟨other, member, trusts⟩ :=
          inductionHypothesis _ (fun inserted => by
            rcases getElem?_insert_iff.mp inserted with ⟨eq, _⟩ | ⟨_, old⟩
            · exact same eq
            · exact absent old) present
        exact ⟨other, by simp [member], trusts⟩

/-- The registries of the sample trust each header for one parent. -/
theorem sampleOnce_singleParent : SingleParent sampleOnce := by
  have trusts :
      ∀ {zanoHeight miningHeaderHash parentId},
        Authorizes sampleOnce zanoHeight miningHeaderHash parentId →
          (miningHeaderHash, parentId) = (5, 0) ∨
            (miningHeaderHash, parentId) = (6, 1) := by
    rintro zanoHeight miningHeaderHash parentId ⟨submission, member, found⟩
    have registries :
        submission.registry = reuseRegistry [(sampleContext, 0)] ∨
          submission.registry =
            reuseRegistry [(sampleContext, 0), (nextContext, 1)] := by
      simp only [sampleOnce, List.mem_cons, List.not_mem_nil,
        or_false] at member
      rcases member with rfl | rfl
      · exact .inl rfl
      · exact .inr rfl
    rcases registries with registry | registry
    · rw [registry] at found
      obtain ⟨entry, inList, rfl, rfl⟩ := reuseRegistry_find found
      obtain rfl := List.mem_singleton.mp inList
      exact .inl rfl
    · rw [registry] at found
      obtain ⟨entry, inList, rfl, rfl⟩ := reuseRegistry_find found
      simp only [List.mem_cons, List.not_mem_nil, or_false] at inList
      rcases inList with rfl | rfl
      · exact .inl rfl
      · exact .inr rfl
  intro _ _ parentId other authorized otherAuthorized
  rcases trusts authorized with first | first <;>
    rcases trusts otherAuthorized with second | second <;>
    simp_all

/-- The window at the child credits both solutions once. -/
theorem sampleOnce_credited :
    Branch
        (attemptOps heightBackend (sampleOnce.map TrustedSubmission.op)
          reuseStart).connected 2 [nextShare, sampleShare 0 0 3 1] ∧
      buildSidechainPplnsWindowAtParent heightBackend
          (attemptOps heightBackend (sampleOnce.map TrustedSubmission.op)
            reuseStart) 2 sampleParameters 2 =
        .ok sampleOnceWindow ∧
      CreditsOnce [nextShare, sampleShare 0 0 3 1] sampleOnceWindow := by
  have built :
      ShareChain.ofParameters heightBackend sampleParameters =
        .ok reuseStart := rfl
  have isBranch :
      Branch
        (attemptOps heightBackend (sampleOnce.map TrustedSubmission.op)
          reuseStart).connected 2 [nextShare, sampleShare 0 0 3 1] :=
    .of_share (by decide) (by decide +kernel)
      (.of_share (by decide) (by decide +kernel) .root)
  have windowBuilt :
      buildSidechainPplnsWindowAtParent heightBackend
          (attemptOps heightBackend (sampleOnce.map TrustedSubmission.op)
            reuseStart) 2 sampleParameters 2 =
        .ok sampleOnceWindow := by
    decide +kernel
  exact ⟨isBranch, windowBuilt,
    ((solution_creditedOnce built sampleOnce isBranch).2
      sampleOnce_singleParent).2.2 _ _ _ windowBuilt⟩

/-- A root and its child under a registry that trusts their header for both. -/
def sampleReuse : List TrustedSubmission :=
  [ { registry := reuseRegistry [(sampleContext, 0), (sampleContext, 1)]
      share := sampleShare 0 0 3 1
      context := sampleContext
      now := 1000
      mode := .light
      trusted := by decide +kernel }
  , { registry := reuseRegistry [(sampleContext, 0), (sampleContext, 1)]
      share := sampleShare 1 1 3 1
      context := sampleContext
      now := 1000
      mode := .light
      trusted := by decide +kernel } ]

/-- The child repeats the solution of the root, and a window credits both. -/
theorem sampleReuse_creditedTwice :
    ShareChain.ofParameters heightBackend sampleParameters =
        .ok reuseStart ∧
      Branch
        (attemptOps heightBackend (sampleReuse.map TrustedSubmission.op)
          reuseStart).connected 2
        [sampleShare 1 1 3 1, sampleShare 0 0 3 1] ∧
      sampleShare 1 1 3 1 ≠ sampleShare 0 0 3 1 ∧
      (sampleShare 1 1 3 1).solution = (sampleShare 0 0 3 1).solution ∧
      (buildSidechainPplnsWindowAtParent heightBackend
        (attemptOps heightBackend (sampleReuse.map TrustedSubmission.op)
          reuseStart) 2 sampleParameters 2).toOption.map
            PplnsWindow.includedShares = some 2 := by
  refine ⟨rfl, ?_, by decide, rfl, by decide +kernel⟩
  refine .of_share (by decide) (by decide +kernel) ?_
  exact .of_share (by decide) (by decide +kernel) .root

end ZanoP2pool
