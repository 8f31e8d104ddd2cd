import ZanoP2pool.Foundation.TreeMap
import ZanoP2pool.ShareChain

namespace ZanoP2pool

open Foundation

/-!
# Branches of the share chain

A branch is the list of shares from one identity down to its root, newest
first.  The admission rules of `connect_share` read the chain only through the
branch below the share: this module states them as a function of that branch
and proves that the map-walking code computes the same verdict.
-/

/-- Shares of the path from an identity to its root; zero has no shares. -/
inductive Branch
    (connected : ShareMap ConnectedShare) :
    ShareId → List Share → Prop where
  | root :
      Branch connected 0 []
  | step
      {id : ShareId}
      {entry : ConnectedShare}
      {rest : List Share} :
      id ≠ 0 →
      connected[id]? = some entry →
      Branch connected entry.share.parentId rest →
      Branch connected id (entry.share :: rest)

/-- Exact work of a branch: the sum of its difficulties. -/
def branchWork (branch : List Share) : Nat :=
  (branch.map fun share => share.shareDifficulty.toNat).sum

theorem branchWork_nil :
    branchWork [] = 0 :=
  rfl

theorem branchWork_cons
    (share : Share)
    (rest : List Share) :
    branchWork (share :: rest) =
      share.shareDifficulty.toNat + branchWork rest := by
  simp [branchWork]

/-- The work of a branch fits the 256-bit counter. -/
def branchWorkFits (branch : List Share) : Bool :=
  decide (branchWork branch < 2 ^ 256)

theorem branchWorkFits_iff
    {branch : List Share} :
    branchWorkFits branch = true ↔ branchWork branch < 2 ^ 256 :=
  decide_eq_true_iff

/-- Difficulty samples of a branch, newest first. -/
def branchSamples : List Share → List SidechainDifficultySample
  | [] => []
  | share :: rest =>
      { timestamp := share.timestamp
        cumulativeWork := BitVec.ofNat 256 (branchWork (share :: rest)) } ::
          branchSamples rest

/-- Difficulty expected of the next share on a branch. -/
def branchExpectedDifficulty
    (policy : DifficultyPolicy)
    (branch : List Share)
    (networkDifficulty : Difficulty128) :
    Except Exception Difficulty128 := do
  ShareChain.reserveHistory policy.difficultyWindowShares
  calculateNextSidechainDifficulty
    ((branchSamples branch).take policy.difficultyWindowShares.toNat)
    policy.targetShareSeconds
    policy.minimumShareDifficulty
    policy.difficultyWindowShares
    networkDifficulty

/-- A window that fits a vector leaves the retarget alone. -/
theorem branchExpectedDifficulty_eq
    {policy : DifficultyPolicy}
    (reservable :
      policy.difficultyWindowShares.toNat ≤ ShareChain.kHistoryMaxSize)
    (branch : List Share)
    (networkDifficulty : Difficulty128) :
    branchExpectedDifficulty policy branch networkDifficulty =
      calculateNextSidechainDifficulty
        ((branchSamples branch).take policy.difficultyWindowShares.toNat)
        policy.targetShareSeconds
        policy.minimumShareDifficulty
        policy.difficultyWindowShares
        networkDifficulty := by
  rw [branchExpectedDifficulty, ShareChain.reserveHistory, if_pos reservable]
  rfl

/-- Any other window is a length error. -/
theorem branchExpectedDifficulty_tooLong
    {policy : DifficultyPolicy}
    (tooLong :
      ¬ policy.difficultyWindowShares.toNat ≤ ShareChain.kHistoryMaxSize)
    (branch : List Share)
    (networkDifficulty : Difficulty128) :
    branchExpectedDifficulty policy branch networkDifficulty =
      .error (.logicError "vector::reserve") := by
  rw [branchExpectedDifficulty, ShareChain.reserveHistory, if_neg tooLong]
  rfl

/-- An expected difficulty is one the retarget computed. -/
theorem retarget_of_branchExpectedDifficulty
    {policy : DifficultyPolicy}
    {branch : List Share}
    {networkDifficulty difficulty : Difficulty128}
    (expected :
      branchExpectedDifficulty policy branch networkDifficulty =
        .ok difficulty) :
    calculateNextSidechainDifficulty
        ((branchSamples branch).take policy.difficultyWindowShares.toNat)
        policy.targetShareSeconds
        policy.minimumShareDifficulty
        policy.difficultyWindowShares
        networkDifficulty =
      .ok difficulty := by
  by_cases reservable :
      policy.difficultyWindowShares.toNat ≤ ShareChain.kHistoryMaxSize
  · rw [branchExpectedDifficulty_eq reservable] at expected
    exact expected
  · rw [branchExpectedDifficulty_tooLong reservable] at expected
    cases expected

/-- Link rule of a share on a branch; a root share has no link to check. -/
def branchLinkRejectReason
    (share : Share) :
    List Share → ShareRejectReason
  | [] => .none
  | parent :: _ => ShareChain.parentLinkRejectReason share parent

/-- Difficulty rule of a share on a branch. -/
def branchDifficultyRejectReason
    (policy : Option DifficultyPolicy)
    (branch : List Share)
    (share : Share) :
    Except Exception ShareRejectReason :=
  match policy with
  | none => .ok .none
  | some policy => do
      let expected ←
        branchExpectedDifficulty policy branch share.networkDifficulty
      return if share.shareDifficulty = expected then .none
        else .unexpectedShareDifficulty

/-- Verdict of the admission rules on a share placed on top of a branch. -/
def branchVerdict
    (policy : Option DifficultyPolicy)
    (branch : List Share)
    (share : Share)
    (enforceSidechainDifficulty : Bool) :
    Except Exception ShareRejectReason := do
  if branchLinkRejectReason share branch ≠ .none then
    return branchLinkRejectReason share branch
  let difficultyReason ←
    if enforceSidechainDifficulty then
      branchDifficultyRejectReason policy branch share
    else
      .ok .none
  if difficultyReason ≠ .none then
    return difficultyReason
  return if branchWorkFits (share :: branch) then .none
    else .cumulativeWorkOverflow

/--
Every entry stands on a branch it links to, and its recorded work is the exact
work of its path to the root.
-/
def Rooted (connected : ShareMap ConnectedShare) : Prop :=
  ∀ ⦃id : ShareId⦄ ⦃entry : ConnectedShare⦄,
    connected[id]? = some entry →
      ∃ branch,
        Branch connected entry.share.parentId branch ∧
        branchLinkRejectReason entry.share branch = .none ∧
        entry.cumulativeWork.toNat = branchWork (entry.share :: branch)

/-- A broken link decides the verdict. -/
theorem branchVerdict_of_link
    {policy : Option DifficultyPolicy}
    {branch : List Share}
    {share : Share}
    {enforce : Bool}
    (broken : branchLinkRejectReason share branch ≠ .none) :
    branchVerdict policy branch share enforce =
      .ok (branchLinkRejectReason share branch) := by
  simp only [branchVerdict, if_pos broken]
  rfl

/--
A failed difficulty check decides the verdict of a share that links.  The rule
is checked on configured chains; elsewhere it cannot fail.
-/
theorem branchVerdict_of_difficulty
    {policy : Option DifficultyPolicy}
    {branch : List Share}
    {share : Share}
    {judged : Except Exception ShareRejectReason}
    (linked : branchLinkRejectReason share branch = .none)
    (checked : branchDifficultyRejectReason policy branch share = judged)
    (failed : judged ≠ .ok .none) :
    branchVerdict policy branch share policy.isSome = judged := by
  cases policy with
  | none =>
      exact (failed checked.symm).elim
  | some policy =>
      simp only [branchVerdict, linked, checked, Option.isSome_some,
        if_true, ne_eq, not_true_eq_false, if_false, bind, Except.bind]
      cases judged with
      | error thrown => rfl
      | ok reason =>
          have refusal : reason ≠ .none := by
            rintro rfl
            exact failed rfl
          simp only [if_pos refusal]
          rfl

/-- The verdict admits a share exactly when all three rules do. -/
theorem branchVerdict_eq_none
    {policy : Option DifficultyPolicy}
    {branch : List Share}
    {share : Share}
    {enforce : Bool} :
    branchVerdict policy branch share enforce = .ok .none ↔
      branchLinkRejectReason share branch = .none ∧
      (enforce = true →
        branchDifficultyRejectReason policy branch share = .ok .none) ∧
      branchWorkFits (share :: branch) = true := by
  simp only [branchVerdict, bind, Except.bind, pure, Except.pure]
  by_cases linked : branchLinkRejectReason share branch = .none
  · cases enforce with
    | false =>
        cases branchWorkFits (share :: branch) <;> simp [linked]
    | true =>
        cases branchDifficultyRejectReason policy branch share with
        | error thrown => simp [linked]
        | ok reason =>
            by_cases admitted : reason = .none
            · cases branchWorkFits (share :: branch) <;>
                simp [linked, admitted]
            · simp [linked, admitted]
  · simp [linked]

namespace Branch

variable {connected later : ShareMap ConnectedShare}

/-- An identity has at most one branch. -/
theorem unique
    {id : ShareId}
    {first second : List Share}
    (firstBranch : Branch connected id first)
    (secondBranch : Branch connected id second) :
    first = second := by
  induction firstBranch generalizing second with
  | root =>
      cases secondBranch with
      | root =>
          rfl
      | step nonzero _ _ =>
          exact (nonzero rfl).elim
  | step nonzero found _ inductionHypothesis =>
      cases secondBranch with
      | root =>
          exact (nonzero rfl).elim
      | step _ foundAgain below =>
          rw [found] at foundAgain
          cases foundAgain
          rw [inductionHypothesis below]

/-- A branch survives every change that keeps the share of each entry. -/
theorem mono
    (keepsShares :
      ∀ ⦃id : ShareId⦄ ⦃entry : ConnectedShare⦄,
        connected[id]? = some entry →
          ∃ updated : ConnectedShare,
            later[id]? = some updated ∧ updated.share = entry.share)
    {id : ShareId}
    {branch : List Share}
    (isBranch : Branch connected id branch) :
    Branch later id branch := by
  induction isBranch with
  | root =>
      exact .root
  | step nonzero found _ inductionHypothesis =>
      obtain ⟨updated, foundLater, sameShare⟩ := keepsShares found
      rw [← sameShare] at inductionHypothesis ⊢
      exact .step nonzero foundLater inductionHypothesis

/-- A branch survives the connection of a new identity. -/
theorem insert
    {newId : ShareId}
    (fresh : connected[newId]? = none)
    (entry : ConnectedShare)
    {id : ShareId}
    {branch : List Share}
    (isBranch : Branch connected id branch) :
    Branch (connected.insert newId entry) id branch := by
  refine isBranch.mono ?_
  intro other found present
  exact ⟨found, (getElem?_insert_fresh fresh entry).mpr (.inr present), rfl⟩

/-- The branch of a nonzero identity starts with the share connected there. -/
theorem head
    {id : ShareId}
    {branch : List Share}
    (isBranch : Branch connected id branch)
    (nonzero : id ≠ 0) :
    ∃ entry rest,
      connected[id]? = some entry ∧
      branch = entry.share :: rest ∧
      Branch connected entry.share.parentId rest := by
  cases isBranch with
  | root =>
      exact (nonzero rfl).elim
  | step _ found below =>
      exact ⟨_, _, found, rfl, below⟩

/-- Every share of a branch is connected. -/
theorem exists_connected
    {id : ShareId}
    {branch : List Share}
    (isBranch : Branch connected id branch)
    {share : Share}
    (member : share ∈ branch) :
    ∃ (other : ShareId) (entry : ConnectedShare),
      connected[other]? = some entry ∧ entry.share = share := by
  induction isBranch with
  | root =>
      cases member
  | step _ found _ inductionHypothesis =>
      rcases List.mem_cons.mp member with rfl | older
      · exact ⟨_, _, found, rfl⟩
      · exact inductionHypothesis older

/-- Only the empty branch hangs below the zero identity. -/
theorem zero_iff
    {branch : List Share} :
    Branch connected 0 branch ↔ branch = [] := by
  constructor
  · intro isBranch
    exact isBranch.unique .root
  · rintro rfl
    exact .root

end Branch

/-- The byte-wise addition returns the sum and detects a carry out. -/
theorem addChainWorkChecked_eq
    (left right : ChainWork) :
    addChainWorkChecked left right =
      (decide (left.toNat + right.toNat < 2 ^ 256),
        BitVec.ofNat 256 (left.toNat + right.toNat)) := by
  have leftLength : (hashBytes left).reverse.length = 32 := by
    simp [hashBytes]
  have rightLength : (hashBytes right).reverse.length = 32 := by
    simp [hashBytes]
  have sameLength :
      (hashBytes left).reverse.length =
        (hashBytes right).reverse.length := by
    rw [leftLength, rightLength]
  have leftValue : ofBigEndian (hashBytes left) = left.toNat := by
    exact ofBigEndian_bigEndian_of_lt (by
      have bound := left.isLt
      norm_num at bound ⊢
      exact bound)
  have rightValue : ofBigEndian (hashBytes right) = right.toNat := by
    exact ofBigEndian_bigEndian_of_lt (by
      have bound := right.isLt
      norm_num at bound ⊢
      exact bound)
  have exact := addWithCarry_value sameLength 0
  have sumLength := length_addWithCarry sameLength 0
  have sumBound :=
    ofBigEndian_lt
      (addWithCarry (hashBytes left).reverse
        (hashBytes right).reverse 0).1.reverse
  rw [List.length_reverse, sumLength, leftLength] at sumBound
  rw [List.reverse_reverse, List.reverse_reverse, leftValue, rightValue,
    leftLength, Nat.add_zero] at exact
  have capacity : (256 : Nat) ^ 32 = 2 ^ 256 := by norm_num
  rw [capacity] at exact sumBound
  unfold addChainWorkChecked
  simp only [Prod.mk.injEq]
  constructor
  · rw [Bool.eq_iff_iff, beq_iff_eq, decide_eq_true_eq]
    constructor
    · intro noCarry
      rw [noCarry] at exact
      omega
    · intro fits
      by_contra carried
      have positive :
          1 ≤ (addWithCarry (hashBytes left).reverse
            (hashBytes right).reverse 0).2 :=
        Nat.one_le_iff_ne_zero.mpr carried
      have atLeast := Nat.mul_le_mul_right (2 ^ 256) positive
      omega
  · apply BitVec.eq_of_toNat_eq
    rw [BitVec.toNat_ofNat, BitVec.toNat_ofNat, ← exact]
    omega

/-- A nonzero difficulty is its own work. -/
theorem shareWork_eq_ok
    {difficulty : Difficulty128}
    (nonzero : difficulty ≠ 0) :
    shareWork difficulty = .ok (difficulty.setWidth 256) := by
  simp [shareWork, difficulty128IsZero_eq_false.mpr nonzero]

theorem shareWork_zero :
    shareWork 0 =
      .error (.invalidArgument
        "share difficulty must be greater than zero") := by
  rfl

namespace ShareChain

/-- A linked child is one height above its parent. -/
theorem parentLink_height
    {share parent : Share}
    (linked : parentLinkRejectReason share parent = .none) :
    share.shareHeight.toNat = parent.shareHeight.toNat + 1 := by
  unfold parentLinkRejectReason at linked
  split_ifs at linked with broken
  rw [not_or, not_ne_iff] at broken
  have bound := parent.shareHeight.toNat_lt
  have notMax : parent.shareHeight.toNat ≠ 2 ^ 64 - 1 := by
    intro isMax
    exact broken.1 (UInt64.toNat_inj.mp (by rw [isMax]; rfl))
  rw [broken.2, UInt64.toNat_add]
  simp only [UInt64.reduceToNat]
  omega

variable {chain : ShareChain}

/-- Recorded work determines the sample of an entry. -/
theorem cumulativeWork_eq_ofNat
    {work : ChainWork}
    {total : Nat}
    (exact : work.toNat = total) :
    work = BitVec.ofNat 256 total := by
  rw [← exact, BitVec.ofNat_toNat, BitVec.setWidth_eq]

/-- The walk of the source collects the newest samples of the branch. -/
theorem collectHistory_eq
    (rooted : Rooted chain.connected)
    {id : ShareId}
    {entry : ConnectedShare}
    {rest : List Share}
    (found : chain.connected[id]? = some entry)
    (below : Branch chain.connected entry.share.parentId rest)
    (budget : Nat) :
    chain.collectHistory budget entry =
      .ok ((branchSamples (entry.share :: rest)).take budget) := by
  induction budget generalizing id entry rest with
  | zero =>
      simp [collectHistory]
  | succ budget inductionHypothesis =>
      obtain ⟨branch, isBranch, _, exact⟩ := rooted found
      rw [isBranch.unique below] at exact
      have work := cumulativeWork_eq_ofNat exact
      by_cases zero : entry.share.parentId = 0
      · have empty : rest = [] := by
          rw [zero] at below
          exact Branch.zero_iff.mp below
        subst rest
        simp [collectHistory, isZeroShareId_iff.mpr zero, branchSamples, work]
      · obtain ⟨parent, older, parentFound, shape, olderBranch⟩ :=
          below.head zero
        have deeper := inductionHypothesis parentFound olderBranch
        rw [← shape] at deeper
        simp [collectHistory, isZeroShareId_eq_false.mpr zero, find,
          parentFound, deeper, branchSamples, work, bind, Except.bind, pure,
          Except.pure]

/-- The expected difficulty below a parent depends on its branch alone. -/
theorem expectedChildShareDifficulty_eq
    (rooted : Rooted chain.connected)
    {policy : DifficultyPolicy}
    (configured : chain.difficultyPolicy = some policy)
    {parentId : ShareId}
    {branch : List Share}
    (isBranch : Branch chain.connected parentId branch)
    (networkDifficulty : Difficulty128) :
    chain.expectedChildShareDifficulty parentId networkDifficulty =
      branchExpectedDifficulty policy branch networkDifficulty := by
  by_cases zero : parentId = 0
  · have empty : branch = [] := by
      rw [zero] at isBranch
      exact Branch.zero_iff.mp isBranch
    subst branch
    simp [expectedChildShareDifficulty, configured,
      isZeroShareId_iff.mpr zero, branchExpectedDifficulty, branchSamples, bind, Except.bind]
  · obtain ⟨parent, older, parentFound, shape, olderBranch⟩ :=
      isBranch.head zero
    have walked := collectHistory_eq rooted parentFound olderBranch
      policy.difficultyWindowShares.toNat
    rw [← shape] at walked
    simp [expectedChildShareDifficulty, configured,
      isZeroShareId_eq_false.mpr zero, find, parentFound, walked, branchExpectedDifficulty, bind, Except.bind]

/-- The difficulty check of the source is the one on the branch. -/
theorem expectedDifficultyRejectReason_eq
    (rooted : Rooted chain.connected)
    {share : Share}
    {branch : List Share}
    (isBranch : Branch chain.connected share.parentId branch) :
    chain.expectedDifficultyRejectReason share =
      branchDifficultyRejectReason chain.difficultyPolicy branch share := by
  cases configured : chain.difficultyPolicy with
  | none =>
      simp [expectedDifficultyRejectReason, branchDifficultyRejectReason,
        configured]
  | some policy =>
      have judged :
          (!isZeroShareId share.parentId &&
            !chain.contains share.parentId) = false := by
        by_cases zero : share.parentId = 0
        · simp [isZeroShareId_iff.mpr zero]
        · obtain ⟨parent, _, parentFound, _, _⟩ := isBranch.head zero
          have present : chain.contains share.parentId = true :=
            contains_iff_getElem?.mpr ⟨parent, parentFound⟩
          simp [present]
      simp [expectedDifficultyRejectReason, branchDifficultyRejectReason,
        configured, judged,
        expectedChildShareDifficulty_eq rooted configured isBranch]

/-- Whether the parent side of a share carries validated ancestry. -/
def parentValidated
    (chain : ShareChain)
    (parentId : ShareId) :
    Bool :=
  if isZeroShareId parentId then true
  else (chain.find parentId).any ConnectedShare.validatedAncestry

/-- Whether an admission establishes proof of work for its own share. -/
def establishesWork
    (powValidation : Option CandidateValidation)
    (enforceSidechainDifficulty : Bool) :
    Bool :=
  enforceSidechainDifficulty &&
    powValidation.any CandidateValidation.meetsShareDifficulty

/-- The entry installed for a share on a branch that admits it. -/
def branchEntry
    (branch : List Share)
    (share : Share)
    (id : ShareId)
    (powValidation : Option CandidateValidation)
    (validatedAncestry : Bool) :
    ConnectedShare :=
  { share, id, powValidation, validatedAncestry
    cumulativeWork := BitVec.ofNat 256 (branchWork (share :: branch)) }

/-- The parent entry read by `connect_share` is the head of the branch. -/
theorem connectParent_eq
    {share : Share}
    {branch : List Share}
    (isBranch : Branch chain.connected share.parentId branch) :
    (share.parentId = 0 ∧ branch = [] ∧
        chain.connectParent share = .ok none) ∨
      (∃ parent rest,
        share.parentId ≠ 0 ∧
        chain.connected[share.parentId]? = some parent ∧
        branch = parent.share :: rest ∧
        Branch chain.connected parent.share.parentId rest ∧
        chain.connectParent share = .ok (some parent)) := by
  by_cases zero : share.parentId = 0
  · have empty : branch = [] := by
      rw [zero] at isBranch
      exact Branch.zero_iff.mp isBranch
    exact .inl ⟨zero, empty, by
      simp [connectParent, isZeroShareId_iff.mpr zero]⟩
  · obtain ⟨parent, rest, found, shape, below⟩ := isBranch.head zero
    exact .inr ⟨parent, rest, zero, found, shape, below, by
      simp [connectParent, isZeroShareId_eq_false.mpr zero, find, found]⟩

/-- Work of the parent side plus the work of the share, as the code adds it. -/
private theorem summedWork_eq
    (share : Share)
    {parent : ConnectedShare}
    {rest : List Share}
    (exact :
      parent.cumulativeWork.toNat = branchWork (parent.share :: rest)) :
    addChainWorkChecked parent.cumulativeWork
        (share.shareDifficulty.setWidth 256) =
      (branchWorkFits (share :: parent.share :: rest),
        BitVec.ofNat 256 (branchWork (share :: parent.share :: rest))) := by
  have widened :
      (share.shareDifficulty.setWidth 256).toNat =
        share.shareDifficulty.toNat := by
    rw [BitVec.toNat_setWidth]
    exact Nat.mod_eq_of_lt
      (lt_trans share.shareDifficulty.isLt (by norm_num))
  rw [addChainWorkChecked_eq, widened, exact, branchWorkFits,
    branchWork_cons share, Nat.add_comm]

/-- A root share alone never overflows the work counter. -/
private theorem rootWork_eq
    (share : Share) :
    branchWorkFits [share] = true ∧
      share.shareDifficulty.setWidth 256 =
        BitVec.ofNat 256 (branchWork [share]) := by
  have bound := share.shareDifficulty.isLt
  constructor
  · rw [branchWorkFits_iff, branchWork_cons, branchWork_nil, Nat.add_zero]
    exact lt_trans bound (by norm_num)
  · apply BitVec.eq_of_toNat_eq
    simp [branchWork]

/--
`connect_share` decides and computes exactly what the branch below the share
determines.
-/
theorem connectedEntry_eq
    (rooted : Rooted chain.connected)
    {share : Share}
    {branch : List Share}
    (isBranch : Branch chain.connected share.parentId branch)
    (nonzeroDifficulty : share.shareDifficulty ≠ 0)
    (id : ShareId)
    (powValidation : Option CandidateValidation)
    (enforce : Bool) :
    chain.connectedEntry share id powValidation enforce =
      (branchVerdict chain.difficultyPolicy branch share enforce).map
        fun reason =>
          if reason = .none then
            .ok (branchEntry branch share id powValidation
              (establishesWork powValidation enforce &&
                chain.parentValidated share.parentId))
          else
            .error reason := by
  have judged := expectedDifficultyRejectReason_eq rooted isBranch
  rcases connectParent_eq isBranch with
    ⟨zero, rfl, parentRead⟩ |
    ⟨parent, rest, nonzero, found, rfl, below, parentRead⟩
  · obtain ⟨fits, work⟩ := rootWork_eq share
    have validated : chain.parentValidated share.parentId = true := by
      simp [parentValidated, isZeroShareId_iff.mpr zero]
    simp only [connectedEntry, branchVerdict, shareWork_eq_ok
      nonzeroDifficulty, parentRead, judged, establishesWork, validated,
      branchLinkRejectReason, fits, branchEntry, ← work, bind, Except.bind,
      pure, Except.pure]
    cases enforce with
    | false => simp [Except.map]
    | true =>
        cases branchDifficultyRejectReason chain.difficultyPolicy [] share with
        | error thrown => simp [Except.map]
        | ok reason =>
            by_cases admitted : reason = .none <;>
              simp [admitted, Except.map]
  · obtain ⟨branch, branchOf, _, exact⟩ := rooted found
    rw [branchOf.unique below] at exact
    have summed := summedWork_eq share exact
    have validated :
        chain.parentValidated share.parentId = parent.validatedAncestry := by
      simp [parentValidated, isZeroShareId_eq_false.mpr nonzero, find, found]
    simp only [connectedEntry, branchVerdict, shareWork_eq_ok
      nonzeroDifficulty, parentRead, judged, establishesWork, validated,
      branchLinkRejectReason, branchEntry, summed, bind, Except.bind,
      pure, Except.pure]
    by_cases linked : parentLinkRejectReason share parent.share = .none
    · cases branchWorkFits (share :: parent.share :: rest)
      all_goals
        cases enforce with
        | false => simp [linked, Except.map]
        | true =>
            cases branchDifficultyRejectReason chain.difficultyPolicy
                (parent.share :: rest) share with
            | error thrown => simp [linked, Except.map]
            | ok reason =>
                by_cases admitted : reason = .none <;>
                  simp [linked, admitted, Except.map]
    · simp [linked, Except.map]

end ShareChain

end ZanoP2pool
