import ZanoP2pool.ShareChainReachable

namespace ZanoP2pool

open Foundation

/-!
# Invariants of reachable share chains

The representation invariant of the maps, the index and the tip, and the
meaning of validated ancestry, both over all runs of the chain in which no call
throws.
-/

namespace ShareChain

/-- Order of tips, spelled out: work, then height, then smaller identity. -/
def Outranks (winner loser : ConnectedShare) : Prop :=
  loser.cumulativeWork.toNat < winner.cumulativeWork.toNat ∨
    (loser.cumulativeWork = winner.cumulativeWork ∧
      (loser.share.shareHeight.toNat < winner.share.shareHeight.toNat ∨
        (loser.share.shareHeight = winner.share.shareHeight ∧
          winner.id < loser.id)))

/-- A root share at height zero, or a share linked to its connected parent. -/
def LinkedOrRoot (chain : ShareChain) (share : Share) : Prop :=
  (share.parentId = 0 ∧ share.shareHeight = 0) ∨
    ∃ parent,
      chain.connected[share.parentId]? = some parent ∧
      share.shareHeight.toNat = parent.share.shareHeight.toNat + 1 ∧
      parent.share.timestamp.toNat ≤ share.timestamp.toNat + 60

/-- The representation invariant of a chain between calls. -/
structure RepresentationInvariant
    (backend : Backend)
    (chain : ShareChain) :
    Prop where
  keyed :
    ∀ id entry, chain.connected[id]? = some entry →
      shareId backend entry.share = .ok id
  linked :
    ∀ (id : ShareId) entry, chain.connected[id]? = some entry →
      chain.LinkedOrRoot entry.share
  exactWork :
    ∀ (id : ShareId) entry, chain.connected[id]? = some entry →
      ∃ belowPath,
        Branch chain.connected entry.share.parentId belowPath ∧
        entry.cumulativeWork.toNat =
          ((entry.share :: belowPath).map fun share =>
            share.shareDifficulty.toNat).sum
  disjoint :
    ∀ id : ShareId,
      chain.orphans[id]? = none ∨ chain.connected[id]? = none
  noPromotableOrphan :
    ∀ (id : ShareId) orphan, chain.orphans[id]? = some orphan →
      chain.connected[orphan.share.parentId]? = none
  indexed :
    ∀ parentId id : ShareId,
      (chain.listed parentId).count id =
        if (chain.orphans[id]?).any
            (fun orphan => orphan.share.parentId == parentId) then 1 else 0
  emptyTip :
    chain.bestTipId = none ↔ chain.connected = ∅
  greatestTip :
    ∀ best, chain.bestTipId = some best →
      ∃ entry,
        chain.connected[best]? = some entry ∧
        ∀ (id : ShareId) other, chain.connected[id]? = some other →
          id ≠ best → Outranks entry other

/-- A linked child is at most one minute older than its parent. -/
theorem parentLink_timestamp
    {share parent : Share}
    (linked : parentLinkRejectReason share parent = .none) :
    parent.timestamp.toNat ≤ share.timestamp.toNat + 60 := by
  unfold parentLinkRejectReason parentTimestampRejectReason at linked
  split_ifs at linked with _ notBefore tolerated
  · have ordered := UInt64.le_iff_toNat_le.mp notBefore
    omega
  · have before := UInt64.lt_iff_toNat_lt.mp (UInt64.not_le.mp notBefore)
    have within := UInt64.le_iff_toNat_le.mp (UInt64.not_lt.mp tolerated)
    rw [UInt64.toNat_sub_of_le _ _
      (UInt64.le_iff_toNat_le.mpr (le_of_lt before))] at within
    have limit : kShareMaxParentBackstepSeconds.toNat = 60 := rfl
    omega

/-- A greater rank at another identity is a strictly greater one. -/
theorem outranks_of_tipRank_le
    {winner loser : ConnectedShare}
    (notAbove : tipRank loser ≤ tipRank winner)
    (different : loser.id ≠ winner.id) :
    Outranks winner loser := by
  have below : tipRank loser < tipRank winner :=
    lt_of_le_of_ne notAbove fun same =>
      different (id_eq_of_tipRank_eq same)
  simp only [tipRank, Prod.Lex.toLex_lt_toLex, OrderDual.toDual_lt_toDual]
    at below
  rcases below with work | ⟨sameWork, height | ⟨sameHeight, smaller⟩⟩
  · exact .inl work
  · exact .inr ⟨BitVec.eq_of_toNat_eq sameWork, .inl height⟩
  · exact .inr ⟨BitVec.eq_of_toNat_eq sameWork,
      .inr ⟨UInt64.toNat_inj.mp sameHeight, BitVec.lt_def.mpr smaller⟩⟩

/-- Every connected share of a sound chain is a root or is linked. -/
theorem Sound.linkedOrRoot
    {backend : Backend}
    {chain : ShareChain}
    (sound : Sound backend chain)
    {id : ShareId}
    {entry : ConnectedShare}
    (found : chain.connected[id]? = some entry) :
    chain.LinkedOrRoot entry.share := by
  by_cases zero : entry.share.parentId = 0
  · exact .inl ⟨zero,
      (structuralRejectReason_eq_none (sound.structural found)).2.mp zero⟩
  · obtain ⟨branch, isBranch, linked, _⟩ := sound.rooted found
    obtain ⟨parent, rest, parentFound, rfl, _⟩ := isBranch.head zero
    exact .inr ⟨parent, parentFound, parentLink_height linked,
      parentLink_timestamp linked⟩

/-- The invariants of the calls give the representation invariant. -/
theorem WellFormed.representationInvariant
    {backend : Backend}
    {chain : ShareChain}
    (wellFormed : WellFormed backend chain) :
    RepresentationInvariant backend chain := by
  obtain ⟨sound, _, settled⟩ := wellFormed
  constructor
  case keyed =>
    intro id entry found
    exact (sound.keyed found).2
  case linked =>
    intro id entry found
    exact sound.linkedOrRoot found
  case exactWork =>
    intro id entry found
    obtain ⟨branch, isBranch, _, exact⟩ := sound.rooted found
    exact ⟨branch, isBranch, exact⟩
  case disjoint =>
    intro id
    cases buffered : chain.orphans[id]? with
    | none => exact .inl rfl
    | some orphan => exact .inr (sound.disjoint buffered)
  case noPromotableOrphan =>
    intro id orphan buffered
    apply contains_eq_false_iff.mp
    rw [← Bool.not_eq_true]
    intro connected
    have impossible :=
      settled.ready id orphan.share.parentId ⟨orphan, buffered, rfl⟩
        connected
    simp at impossible
  case indexed =>
    intro parentId id
    have listed := settled.exact parentId id
    simp only [List.not_mem_nil, not_false_eq_true, true_and, WaitsFor]
      at listed
    rw [(settled.nodup parentId).count]
    simp only [Option.any_eq_true, beq_iff_eq, ← listed]
  case emptyTip =>
    have best := sound.bestTip
    cases selected : chain.bestTipId with
    | none =>
        rw [selected] at best
        refine iff_of_true rfl ?_
        apply Std.ExtTreeMap.ext_getElem?
        intro id
        simp [best id]
    | some tip =>
        rw [selected] at best
        obtain ⟨entry, found, _⟩ := best
        refine iff_of_false (by simp) ?_
        intro empty
        simp [empty] at found
  case greatestTip =>
    intro tip selected
    have best := sound.bestTip
    rw [selected] at best
    obtain ⟨entry, found, greatest⟩ := best
    refine ⟨entry, found, ?_⟩
    intro id other otherFound different
    refine outranks_of_tipRank_le (greatest otherFound) ?_
    rw [(sound.keyed found).1, (sound.keyed otherFound).1]
    exact different

/-- The tip of the representation invariant has the greatest rank. -/
theorem RepresentationInvariant.isBestTip
    {backend : Backend}
    {chain : ShareChain}
    (invariant : RepresentationInvariant backend chain) :
    IsBestTip chain.connected chain.bestTipId := by
  cases selected : chain.bestTipId with
  | none =>
      intro id
      rw [invariant.emptyTip.mp selected]
      simp
  | some best =>
      obtain ⟨entry, found, outranks⟩ := invariant.greatestTip best selected
      refine ⟨entry, found, ?_⟩
      intro id other otherFound
      by_cases same : id = best
      · subst same
        rw [found] at otherFound
        cases otherFound
        exact le_refl _
      · have above := outranks id other otherFound same
        simp only [Outranks] at above
        apply le_of_lt
        simp only [tipRank, Prod.Lex.toLex_lt_toLex,
          OrderDual.toDual_lt_toDual]
        rcases above with work | ⟨sameWork, height | ⟨sameHeight, smaller⟩⟩
        · exact .inl work
        · exact .inr ⟨congrArg BitVec.toNat sameWork, .inl height⟩
        · exact .inr ⟨congrArg BitVec.toNat sameWork,
            .inr ⟨congrArg UInt64.toNat sameHeight,
              BitVec.lt_def.mp smaller⟩⟩

theorem RepresentationInvariant.heightLinked
    {backend : Backend}
    {chain : ShareChain}
    (invariant : RepresentationInvariant backend chain) :
    HeightLinked chain.connected := by
  intro id entry found nonzero
  rcases invariant.linked id entry found with
    ⟨zero, _⟩ | ⟨parent, parentFound, above, _⟩
  · exact absurd zero nonzero
  · exact ⟨parent, parentFound, above⟩

/-- A linked child passes the link rule on its parent. -/
theorem parentLinkRejectReason_linked
    {share parent : Share}
    (above : share.shareHeight.toNat = parent.shareHeight.toNat + 1)
    (near : parent.timestamp.toNat ≤ share.timestamp.toNat + 60) :
    parentLinkRejectReason share parent = .none := by
  have bounded := share.shareHeight.toNat_lt
  have notLast : parent.shareHeight ≠ kUInt64Max := by
    intro last
    rw [last] at above
    have limit : kUInt64Max.toNat = 2 ^ 64 - 1 := rfl
    omega
  have height : share.shareHeight = parent.shareHeight + 1 := by
    apply UInt64.toNat_inj.mp
    rw [UInt64.toNat_add, above]
    have one : (1 : UInt64).toNat = 1 := rfl
    omega
  unfold parentLinkRejectReason parentTimestampRejectReason
  rw [if_neg (not_or.mpr ⟨notLast, not_ne_iff.mpr height⟩)]
  split_ifs with notBefore late
  · rfl
  · exfalso
    have before := UInt64.lt_iff_toNat_lt.mp (UInt64.not_le.mp notBefore)
    have beyond := UInt64.lt_iff_toNat_lt.mp late
    rw [UInt64.toNat_sub_of_le _ _
      (UInt64.le_iff_toNat_le.mpr (le_of_lt before))] at beyond
    have limit : kShareMaxParentBackstepSeconds.toNat = 60 := rfl
    omega
  · rfl

/-- The representation invariant is all that connecting a share needs. -/
theorem RepresentationInvariant.standing
    {backend : Backend}
    {chain : ShareChain}
    (invariant : RepresentationInvariant backend chain) :
    Standing chain where
  rooted := by
    intro id entry found
    obtain ⟨below, isBranch, exact⟩ := invariant.exactWork id entry found
    refine ⟨below, isBranch, ?_, exact⟩
    by_cases zero : entry.share.parentId = 0
    · rw [zero] at isBranch
      rw [Branch.zero_iff.mp isBranch]
      rfl
    · obtain ⟨parent, rest, parentFound, rfl, _⟩ := isBranch.head zero
      rcases invariant.linked id entry found with
        ⟨root, _⟩ | ⟨other, otherFound, above, near⟩
      · exact absurd root zero
      · rw [parentFound] at otherFound
        cases otherFound
        exact parentLinkRejectReason_linked above near
  bestTip := invariant.isBestTip
  disjoint := by
    intro id orphan buffered
    rcases invariant.disjoint id with absent | absent
    · rw [buffered] at absent
      cases absent
    · exact absent

/-- The index of the representation invariant is settled. -/
theorem RepresentationInvariant.settled
    {backend : Backend}
    {chain : ShareChain}
    (invariant : RepresentationInvariant backend chain) :
    Settled chain := by
  have waits :
      ∀ parentId id : ShareId,
        (chain.orphans[id]?).any
            (fun orphan => orphan.share.parentId == parentId) = true ↔
          chain.WaitsFor id parentId := by
    intro parentId id
    simp only [Option.any_eq_true, beq_iff_eq, WaitsFor]
  constructor
  case exact =>
    intro parentId id
    rw [← List.count_pos_iff, invariant.indexed parentId id, ← waits]
    split_ifs with waiting
    · simp [waiting]
    · simp [waiting]
  case nodup =>
    intro parentId
    rw [List.nodup_iff_count_le_one]
    intro id
    rw [invariant.indexed parentId id]
    split_ifs <;> omega
  case ready =>
    rintro id parentId ⟨orphan, buffered, rfl⟩ connected
    have missing := invariant.noPromotableOrphan id orphan buffered
    obtain ⟨parent, found⟩ := contains_iff_getElem?.mp connected
    have present : chain.connected[orphan.share.parentId]? = some parent :=
      found
    rw [missing] at present
    cases present

end ShareChain

/--
Every chain reached from a fresh one by calls that return normally satisfies
the representation invariant.
-/
theorem runOps_representationInvariant
    {backend : Backend}
    {start chain : ShareChain}
    {ops : List ChainOp}
    (fresh : ShareChain.Fresh backend start)
    (ran : runOps backend ops start = .ok () chain) :
    ShareChain.RepresentationInvariant backend chain :=
  (runOps_wellFormed fresh.wellFormed ran).1.representationInvariant

/-- A small backend: the identity of a share is its nonce plus one. -/
def sampleBackend : Backend where
  cnFastHash := fun bytes =>
    BitVec.ofNat 256 (ofBigEndian ((bytes.drop 93).take 8) + 1)
  progpowzAvailable := true
  progpowzHash := fun _ _ _ _ =>
    .ok { finalHash := BitVec.ofNat 256 (2 ^ 255), mixHash := 0 }

def sampleParameters : SidechainParameters where
  parameterVersion := 4
  parentNetwork := .testnet
  minimumShareVersion := 1
  maximumShareVersion := 2
  maxFutureSeconds := 60
  maxParentBackstepSeconds := 60
  targetShareSeconds := 10
  minimumShareDifficulty := 1
  difficultyWindowShares := 2
  pplnsWindowShares := 31
  pplnsMaxNetworkDifficultyMultiplier := 2
  operatorFeeBasisPoints := 100
  operatorFeePayout := { spendPublicKey := 1, viewPublicKey := 1 }

/-- The fresh chain of the sample parameters. -/
def sampleStart : ShareChain where
  difficultyPolicy := some {
    minimumShareVersion := 1
    maximumShareVersion := 2
    targetShareSeconds := 10
    minimumShareDifficulty := 1
    difficultyWindowShares := 2 }
  parameterId := some 1

/-- A share of the given place and work, identified by its nonce. -/
def sampleShare
    (parentId : ShareId)
    (shareHeight nonce : UInt64)
    (shareDifficulty : Difficulty128) :
    Share where
  version := 1
  parentId
  shareHeight
  timestamp := 1000
  zanoHeight := 7
  miningHeaderHash := 5
  nonce
  shareDifficulty
  networkDifficulty := 2
  minerId := 9
  payout := none

def sampleContext : ShareWorkContext where
  zanoHeight := 7
  miningHeaderHash := 5
  networkDifficulty := 2

/-- The child of a root arrives first, then the root, then a replayed share. -/
def sampleOps : List ChainOp :=
  [ .submit (sampleShare 1 1 1 1) sampleContext 1000 .light
  , .submit (sampleShare 0 0 0 1) sampleContext 1000 .light
  , .addUnchecked (sampleShare 2 2 2 1) ]

theorem sampleStart_built :
    ShareChain.ofParameters sampleBackend sampleParameters =
      .ok sampleStart := by
  rfl

/-- The sample run connects all three shares, and its result is invariant. -/
theorem sampleOps_representationInvariant :
    (finalState (runOps sampleBackend sampleOps sampleStart)).bestTipId =
        some 3 ∧
      ShareChain.RepresentationInvariant sampleBackend
        (finalState (runOps sampleBackend sampleOps sampleStart)) :=
  ⟨by decide +kernel,
    runOps_representationInvariant
      (.inr ⟨sampleParameters, sampleStart_built⟩)
      (eq_ok_of_succeeds (by decide +kernel))⟩

namespace ShareChain

variable {backend : Backend} {chain : ShareChain}

/-- What the validated-ancestry flag of a connected share stands for. -/
structure ValidatedAncestry
    (chain : ShareChain)
    (entry : ConnectedShare) :
    Prop where
  parent :
    entry.share.parentId = 0 ∨
      ∃ parent,
        chain.connected[entry.share.parentId]? = some parent ∧
        parent.validatedAncestry = true
  work :
    ∃ validation,
      entry.powValidation = some validation ∧
      validation.meetsShareDifficulty = true ∧
      validation.classification ≠ .invalid ∧
      (validation.classification = .block ↔
        validation.meetsNetworkDifficulty = true)
  difficulty :
    chain.expectedChildShareDifficulty entry.share.parentId
      entry.share.networkDifficulty = .ok entry.share.shareDifficulty

/-- Consistency of cached state, spelled out. -/
theorem replayValidationConsistent_iff
    {validation : CandidateValidation} :
    replayValidationConsistent validation = true ↔
      validation.meetsShareDifficulty = true ∧
      validation.classification ≠ .invalid ∧
      (validation.classification = .block ↔
        validation.meetsNetworkDifficulty = true) := by
  unfold replayValidationConsistent
  cases validation.meetsShareDifficulty <;>
    cases validation.classification <;>
    cases validation.meetsNetworkDifficulty <;> simp

/-- On a configured chain the difficulty rule fixes the difficulty. -/
theorem branchDifficulty_eq_none
    {policy : DifficultyPolicy}
    {branch : List Share}
    {share : Share} :
    branchDifficultyRejectReason (some policy) branch share =
        .ok .none ↔
      branchExpectedDifficulty policy branch share.networkDifficulty =
        .ok share.shareDifficulty := by
  simp only [branchDifficultyRejectReason, except_bind_eq_ok, pure,
    Except.pure, Except.ok.injEq]
  constructor
  · rintro ⟨expected, computed, matching⟩
    split_ifs at matching with same
    rw [same]
    exact computed
  · intro computed
    exact ⟨_, computed, if_pos rfl⟩

/-- The flag means what it stands for on every configured chain. -/
theorem Trusted.validatedAncestry
    (sound : Sound backend chain)
    (trusted : Trusted chain)
    (configured : chain.difficultyPolicy.isSome = true)
    {id : ShareId}
    {entry : ConnectedShare}
    (found : chain.connected[id]? = some entry)
    (flagged : entry.validatedAncestry = true) :
    ValidatedAncestry chain entry := by
  obtain ⟨policy, isPolicy⟩ := Option.isSome_iff_exists.mp configured
  have entitled := trusted.validated found flagged
  obtain ⟨validation, stored, consistent⟩ := entitled.work
  obtain ⟨branch, isBranch, expected⟩ := entitled.difficulty
  refine ⟨parentValidated_iff.mp entitled.parent,
    ⟨validation, stored, replayValidationConsistent_iff.mp consistent⟩, ?_⟩
  rw [expectedChildShareDifficulty_eq sound.rooted isPolicy isBranch]
  rw [isPolicy] at expected
  exact branchDifficulty_eq_none.mp expected

/-- A validated entry of a trusted chain is exported without complaint. -/
theorem exportEntry_ok
    (sound : Sound backend chain)
    (trusted : Trusted chain)
    {id : ShareId}
    {entry : ConnectedShare}
    (found : chain.connected[id]? = some entry)
    (flagged : entry.validatedAncestry = true) :
    ∃ validation,
      entry.powValidation = some validation ∧
      exportEntry backend chain entry =
        .ok (entry.share, { shareId := id, validation }) := by
  have entitled := trusted.validated found flagged
  obtain ⟨validation, stored, consistent⟩ := entitled.work
  obtain ⟨sameId, keyed⟩ := sound.keyed found
  have parent := entitled.parent
  unfold parentValidated at parent
  refine ⟨validation, stored, ?_⟩
  have parentPasses :
      ¬ (!isZeroShareId entry.share.parentId &&
        !(chain.find entry.share.parentId).any
          ConnectedShare.validatedAncestry) = true := by
    cases zero : isZeroShareId entry.share.parentId with
    | true => simp
    | false =>
        rw [zero, if_neg (by simp)] at parent
        simp [parent]
  unfold exportEntry
  rw [stored]
  simp only [consistent, Bool.not_true, Bool.false_eq_true, if_false, keyed,
    bind, Except.bind, sameId, ne_eq, not_true_eq_false]
  rw [if_neg parentPasses]

theorem mem_validatedEntries
    {entry : ConnectedShare} :
    entry ∈ chain.validatedEntries ↔
      ∃ id : ShareId,
        chain.connected[id]? = some entry ∧
        entry.validatedAncestry = true := by
  simp [validatedEntries, Std.ExtTreeMap.mem_toList_iff_getElem?_eq_some]

/-- The export of a configured trusted chain succeeds. -/
theorem replayValidationSnapshot_ok
    (sound : Sound backend chain)
    (trusted : Trusted chain)
    (configured : chain.difficultyPolicy.isSome = true) :
    ∃ exported,
      List.Forall₂
        (fun entry item => exportEntry backend chain entry = .ok item)
        chain.validatedEntries exported ∧
      replayValidationSnapshot backend chain =
        .ok ((exported.insertionSort recordBefore).map Prod.snd) := by
  have each :
      ∀ entry ∈ chain.validatedEntries,
        ∃ item, exportEntry backend chain entry = .ok item := by
    intro entry member
    obtain ⟨id, found, flagged⟩ := mem_validatedEntries.mp member
    obtain ⟨validation, _, exported⟩ :=
      exportEntry_ok sound trusted found flagged
    exact ⟨_, exported⟩
  obtain ⟨exported, mapped, related⟩ := mapM_eq_ok each
  refine ⟨exported, related, ?_⟩
  have isConfigured : ¬ chain.difficultyPolicy.isNone = true := by
    rw [Option.isNone_iff_eq_none, ← ne_eq, ← Option.isSome_iff_ne_none]
    exact configured
  unfold replayValidationSnapshot
  rw [if_neg isConfigured, mapped]
  rfl

end ShareChain

/--
On a configured chain, after every run in which no call throws, a validated
share has validated ancestry, consistent proof of work and the difficulty
expected of it, and the export of validation state succeeds.
-/
theorem runOps_validatedAncestry
    {backend : Backend}
    {params : SidechainParameters}
    {start chain : ShareChain}
    {ops : List ChainOp}
    (built : ShareChain.ofParameters backend params = .ok start)
    (ran : runOps backend ops start = .ok () chain) :
    (∀ (id : ShareId) entry,
      chain.connected[id]? = some entry →
      entry.validatedAncestry = true →
        ShareChain.ValidatedAncestry chain entry) ∧
    ∃ records,
      ShareChain.replayValidationSnapshot backend chain = .ok records := by
  have fresh : ShareChain.Fresh backend start := .inr ⟨params, built⟩
  obtain ⟨⟨sound, trusted, _⟩, samePolicy, _⟩ :=
    runOps_wellFormed fresh.wellFormed ran
  have configured : chain.difficultyPolicy.isSome = true := by
    obtain ⟨policy, parameterId, rfl⟩ :=
      ShareChain.ofParameters_eq_ok built
    rw [samePolicy]
    rfl
  obtain ⟨exported, _, snapshot⟩ :=
    ShareChain.replayValidationSnapshot_ok sound trusted configured
  exact ⟨fun _ _ found flagged =>
      trusted.validatedAncestry sound configured found flagged,
    _, snapshot⟩

/-- In the sample run the submitted shares are validated. -/
theorem sampleOps_validatedAncestry :
    (finalState
        (runOps sampleBackend sampleOps sampleStart)).validatedIds =
        [1, 2] ∧
      ∃ records,
        ShareChain.replayValidationSnapshot sampleBackend
          (finalState (runOps sampleBackend sampleOps sampleStart)) =
            .ok records :=
  ⟨by decide +kernel,
    (runOps_validatedAncestry sampleStart_built
      (eq_ok_of_succeeds (by decide +kernel))).2⟩

end ZanoP2pool
