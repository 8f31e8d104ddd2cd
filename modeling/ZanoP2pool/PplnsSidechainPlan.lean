import ZanoP2pool.PplnsCoinbasePlan

namespace ZanoP2pool

open Foundation

/-!
# Coinbase plans of a sidechain

The window of a configured sidechain is complete, names at most as many miners as
its share window and, when all shares carry payout identities, binds every row to
one.  Its coinbase plan is therefore ready, unless nothing is credited or some
part of the reward rounds down to zero.
-/

namespace ShareChain

variable {backend : Backend} {chain : ShareChain}

/-- Recent work is only counted from a payable share. -/
theorem payable_of_recentWork
    {params : SidechainParameters}
    (accepted : params.Accepted)
    {current : ConnectedShare}
    {recent : Nat}
    (walked :
      recentWork chain params.pplnsWindowShares.toNat current = .ok recent) :
    Payable chain current := by
  have shares : params.pplnsWindowShares.toNat ≠ 0 := fun zero =>
    accepted.payoutPolicy.1.1 (UInt64.toNat_inj.mp zero)
  obtain ⟨others, more⟩ := Nat.exists_eq_succ_of_ne_zero shares
  rw [more, recentWork] at walked
  obtain ⟨_, checked, _⟩ := except_bind_eq_ok.mp walked
  intro configured
  unfold requireValidatedPayoutAncestry enforcesSidechainDifficulty at checked
  rw [configured] at checked
  cases flagged : current.validatedAncestry with
  | true => rfl
  | false =>
      rw [flagged] at checked
      cases checked

/-- A built window is empty or describes the branch of its parent. -/
theorem buildSidechainPplnsWindowAtParent_inv
    (sound : Sound backend chain)
    (trusted : Trusted chain)
    (distinct : DistinctPayouts backend chain)
    {params : SidechainParameters}
    (accepted : params.Accepted)
    {networkDifficulty : Difficulty128}
    {parentId : ShareId}
    {window : PplnsWindow}
    (built :
      buildSidechainPplnsWindowAtParent backend chain parentId params
          networkDifficulty =
        .ok window) :
    window = {} ∨
      ∃ newest older,
        Branch chain.connected parentId (newest :: older) ∧
        IsPplnsWindow (newest :: older) params.pplnsWindowShares.toNat
          (networkDifficulty.toNat *
            params.pplnsMaxNetworkDifficultyMultiplier.toNat) window ∧
        0 < window.requestedWork.toNat := by
  have original := built
  unfold buildSidechainPplnsWindowAtParent at built
  obtain ⟨_, policy, built⟩ := except_bind_eq_ok.mp built
  have hasDifficulty : networkDifficulty ≠ 0 := by
    rintro rfl
    unfold checkPplnsPolicy at policy
    split_ifs at policy with shares multiplier difficulty
    exact difficulty (by decide)
  obtain ⟨start, located, built⟩ := except_bind_eq_ok.mp built
  by_cases root : isZeroShareId parentId = true
  · rw [pplnsParent, if_pos root] at located
    cases located
    cases built
    exact .inl rfl
  right
  have nonzero : parentId ≠ 0 := fun zero => root (isZeroShareId_iff.mpr zero)
  rw [pplnsParent, if_neg root] at located
  cases found : chain.connected[parentId]? with
  | none =>
      rw [show chain.find parentId = none from found] at located
      cases located
  | some current =>
      rw [show chain.find parentId = some current from found] at located
      cases located
      obtain ⟨recent, walked, _⟩ := except_bind_eq_ok.mp built
      have payable : Payable chain current :=
        payable_of_recentWork accepted walked
      obtain ⟨older, below, _⟩ := sound.rooted found
      have isBranch : Branch chain.connected parentId
          (current.share :: older) :=
        .step nonzero found below
      obtain ⟨other, otherBuilt, isWindow⟩ :=
        buildSidechainPplnsWindowAtParent_ok sound trusted distinct accepted
          hasDifficulty nonzero found payable isBranch
      rw [original] at otherBuilt
      cases otherBuilt
      refine ⟨current.share, older, isBranch, isWindow, ?_⟩
      rw [isWindow.requested]
      exact requestedWork_pos accepted hasDifficulty
        (branch_difficulties sound isBranch nonzero).1

/-- A keyed share of version 2 carries a payout identity. -/
theorem payout_of_version2
    {share : Share}
    {id : ShareId}
    (keyed : shareId backend share = .ok id)
    (version2 : share.version = kShareVersion2) :
    ∃ payout, share.payout = some payout := by
  unfold shareId at keyed
  obtain ⟨bytes, serialized, _⟩ := except_bind_eq_ok.mp keyed
  cases (serializeShare_eq_ok.mp serialized).1 with
  | version1 version1 _ =>
      rw [version2] at version1
      cases version1
  | version2 _ present _ => exact ⟨_, present⟩

end ShareChain

namespace IsPplnsWindow

variable {backend : Backend} {branch : List Share} {limit cap : Nat}
variable {window : PplnsWindow}
variable (isWindow : IsPplnsWindow branch limit cap window)

include isWindow in
/-- Every row credits a miner of an included share. -/
theorem exists_share
    {row : PplnsMinerWork}
    (member : row ∈ window.miners) :
    ∃ share ∈ branch.take window.includedShares,
      share.minerId = row.minerId := by
  by_contra absent
  push Not at absent
  have none : row.work.toNat = 0 := by
    rw [isWindow.rowWork row member]
    refine keyedSum_of_absent fun entry inCredits => ?_
    obtain ⟨item, inBranch, rfl⟩ := List.mem_map.mp inCredits
    exact absent item.1 (List.mem_of_getElem?
      (List.mem_zipIdx_iff_getElem?.mp inBranch))
  exact isWindow.rowNonzero row member (BitVec.eq_of_toNat_eq none)

include isWindow in
theorem nodup_miners :
    (window.miners.map PplnsMinerWork.minerId).Nodup := by
  rw [List.Nodup, List.pairwise_map]
  refine isWindow.sorted.imp fun smaller same => ?_
  rw [same] at smaller
  exact BitVec.lt_irrefl _ smaller

include isWindow in
/-- The rows hold the requested work. -/
theorem totalWork_eq :
    totalWork window.miners = window.requestedWork.toNat := by
  rw [← isWindow.covered]
  exact isWindow.total

include isWindow in
theorem miners_ne_nil
    (positive : 0 < window.requestedWork.toNat) :
    window.miners ≠ [] := by
  intro empty
  rw [← isWindow.totalWork_eq, empty] at positive
  simp [totalWork] at positive

include isWindow in
/-- There are no more rows than shares in the window. -/
theorem length_le : window.miners.length ≤ limit := by
  have contained :
      window.miners.map PplnsMinerWork.minerId ⊆
        (branch.take window.includedShares).map Share.minerId := by
    intro minerId member
    obtain ⟨row, inRows, rfl⟩ := List.mem_map.mp member
    obtain ⟨share, inBranch, same⟩ := isWindow.exists_share inRows
    exact List.mem_map.mpr ⟨share, inBranch, same⟩
  have fewer := (isWindow.nodup_miners.subperm contained).length_le
  rw [List.length_map, List.length_map] at fewer
  calc window.miners.length
      ≤ (branch.take window.includedShares).length := fewer
    _ ≤ window.includedShares := List.length_take_le _ _
    _ ≤ limit := isWindow.bounded

variable (bound : BoundPayouts backend branch)

include isWindow bound in
/-- The rows of a window bind their payouts consistently. -/
theorem consistentRows : ConsistentRows backend window.miners := by
  constructor
  · intro row member payout carried
    obtain ⟨share, inBranch, sameMiner, sharePayout⟩ :=
      (isWindow.payouts row member payout).mp carried
    rw [← sameMiner]
    exact (bound.bound share (List.mem_of_mem_take inBranch) payout
      sharePayout).2
  · intro first firstMember second secondMember payout other carried
      otherCarried sameMiner
    have same := List.inj_on_of_nodup_map isWindow.nodup_miners firstMember
      secondMember sameMiner
    rw [same, otherCarried] at carried
    exact (Option.some.inj carried).symm

include isWindow bound in
/-- When every share carries a payout, so does every row. -/
theorem row_payout
    (carried : ∀ share ∈ branch, ∃ payout, share.payout = some payout)
    {row : PplnsMinerWork}
    (member : row ∈ window.miners) :
    ∃ payout,
      row.payout = some payout ∧
        row.minerId = minerIdFromPayout backend payout := by
  obtain ⟨share, inBranch, sameMiner⟩ := isWindow.exists_share member
  obtain ⟨payout, sharePayout⟩ :=
    carried share (List.mem_of_mem_take inBranch)
  have rowPayout :=
    (isWindow.payouts row member payout).mpr
      ⟨share, inBranch, sameMiner, sharePayout⟩
  exact ⟨payout, rowPayout,
    (isWindow.consistentRows bound).bound row member payout rowPayout⟩

end IsPplnsWindow

/-- The rows of an allocation are bound when the rows of the window are. -/
theorem IsPplnsAllocation.bound
    {backend : Backend}
    {rows : List PplnsMinerWork}
    {rewardAtomic : UInt64}
    {payouts : List PplnsPayout}
    (isAllocation : IsPplnsAllocation rows rewardAtomic payouts)
    (rowsBound :
      ∀ row ∈ rows, ∃ payout,
        row.payout = some payout ∧
          row.minerId = minerIdFromPayout backend payout) :
    ∀ entry ∈ payouts, ∃ payout,
      entry.payout = some payout ∧
        entry.minerId = minerIdFromPayout backend payout := by
  intro entry member
  obtain ⟨row, inRows, sameMiner, hasWork⟩ :=
    (isAllocation.miners entry.minerId).mp ⟨entry, member, rfl⟩
  obtain ⟨payout, carried, bound⟩ := rowsBound row inRows
  exact ⟨payout,
    (isAllocation.identity entry member payout).mpr
      ⟨row, inRows, sameMiner, hasWork, carried⟩,
    sameMiner ▸ bound⟩

/-- There is at most one entry for each row. -/
theorem IsPplnsAllocation.length_le
    {rows : List PplnsMinerWork}
    {rewardAtomic : UInt64}
    {payouts : List PplnsPayout}
    (isAllocation : IsPplnsAllocation rows rewardAtomic payouts) :
    payouts.length ≤ rows.length := by
  have nodup : (payouts.map PplnsPayout.minerId).Nodup := by
    rw [List.Nodup, List.pairwise_map]
    refine isAllocation.sorted.imp fun smaller same => ?_
    rw [same] at smaller
    exact BitVec.lt_irrefl _ smaller
  have contained :
      payouts.map PplnsPayout.minerId ⊆
        rows.map PplnsMinerWork.minerId := by
    intro minerId member
    obtain ⟨entry, inPayouts, rfl⟩ := List.mem_map.mp member
    obtain ⟨row, inRows, sameMiner, _⟩ :=
      (isAllocation.miners entry.minerId).mp ⟨entry, inPayouts, rfl⟩
    exact List.mem_map.mpr ⟨row, inRows, sameMiner⟩
  simpa using (nodup.subperm contained).length_le

/-- The plan of a window that describes a branch with payout identities. -/
theorem makePplnsCoinbasePlan_of_window
    {backend : Backend}
    {params : SidechainParameters}
    (accepted : params.Accepted)
    {branch : List Share}
    {cap : Nat}
    {window : PplnsWindow}
    (isWindow :
      IsPplnsWindow branch params.pplnsWindowShares.toNat cap window)
    (positive : 0 < window.requestedWork.toNat)
    (bound : BoundPayouts backend branch)
    (carried : ∀ share ∈ branch, ∃ payout, share.payout = some payout)
    {rewardAtomic : UInt64}
    (nonzero : rewardAtomic ≠ 0) :
    ∃ payouts,
      allocatePplnsReward backend window
          (rewardAtomic - operatorFeeAtomic params rewardAtomic) =
        .ok payouts ∧
      IsPplnsAllocation window.miners
        (rewardAtomic - operatorFeeAtomic params rewardAtomic) payouts ∧
      ((∃ planned,
        makePplnsCoinbasePlan backend window rewardAtomic params =
          .ok (planOf rewardAtomic (.ok planned))) ∨
        makePplnsCoinbasePlan backend window rewardAtomic params =
            .ok (planOf rewardAtomic (.error .zeroPayout)) ∧
          ∃ entry ∈ payouts, entry.amount = 0) := by
  have consistent := isWindow.consistentRows bound
  have total := isWindow.totalWork_eq
  have work : 0 < totalWork window.miners := total ▸ positive
  have small : totalWork window.miners < 2 ^ 256 :=
    total ▸ window.requestedWork.isLt
  obtain ⟨credited, collected, holds⟩ :=
    foldlM_aggregateRow_ok Credits.empty consistent.bound consistent.agreeing
  rw [List.nil_append] at holds
  have weight := holds.totalWeight_eq
  have allocated :=
    allocatePplnsReward_of_credits collected (weight ▸ work) (weight ▸ small)
      (rewardAtomic - operatorFeeAtomic params rewardAtomic)
  have isAllocation :=
    holds.isPplnsAllocation work small
      (rewardAtomic - operatorFeeAtomic params rewardAtomic)
  generalize apportionedEntries
    (rewardAtomic - operatorFeeAtomic params rewardAtomic)
    credited.toList = payouts at allocated isAllocation
  refine ⟨payouts, allocated, isAllocation, ?_⟩
  have someRows := isWindow.miners_ne_nil positive
  have smaller := operatorFeeAtomic_lt accepted rewardAtomic nonzero
  have order := UInt64.lt_iff_toNat_lt.mp smaller
  have sum := isAllocation.sum
  rw [UInt64.toNat_sub_of_le _ _ (UInt64.le_iff_toNat_le.mpr order.le)] at sum
  have some : payouts ≠ [] := by
    rintro rfl
    simp only [List.map_nil, List.sum_nil] at sum
    omega
  have few := isAllocation.length_le.trans isWindow.length_le
  have canonical : params.pplnsWindowShares.toNat ≤ 31 :=
    UInt64.le_iff_toNat_le.mp accepted.payoutPolicy.1.2
  have plans :=
    planDestinations_of_bound (allocatePplnsReward_nodup allocated) smaller
      (isAllocation.bound fun row member =>
        isWindow.row_payout bound carried member)
      some (by unfold kZanoHf6MaxCoinbaseOutputs; omega) few sum
  rw [makePplnsCoinbasePlan_eq accepted,
    if_neg (by simpa using someRows), isWindow.complete]
  simp only [Bool.not_true, Bool.false_eq_true, if_false, if_neg nonzero,
    allocated, Except.map]
  rcases plans with ⟨planned, plans⟩ | ⟨plans, zero⟩
  · exact .inl ⟨planned, by rw [plans]⟩
  · exact .inr ⟨by rw [plans], zero⟩

/--
On a configured chain whose shares are all of version 2, the coinbase plan of a
built window is ready, empty exactly for the empty window, or refused because a
part of the reward is zero; a ready plan pays out the allocation and the fee.
-/
theorem makePplnsCoinbasePlan_sound
    {backend : Backend}
    {chainParams params : SidechainParameters}
    {start chain : ShareChain}
    {ops : List ChainOp}
    (configured : ShareChain.ofParameters backend chainParams = .ok start)
    (ran : runOps backend ops start = .ok () chain)
    (distinct : DistinctPayouts backend chain)
    (version2 :
      ∀ (id : ShareId) entry, chain.connected[id]? = some entry →
        entry.share.version = kShareVersion2)
    (accepted : params.Accepted)
    {networkDifficulty : Difficulty128}
    {parentId : ShareId}
    {window : PplnsWindow}
    (built :
      buildSidechainPplnsWindowAtParent backend chain parentId params
          networkDifficulty =
        .ok window)
    (rewardAtomic : UInt64) :
    (operatorFeeAtomic params rewardAtomic).toNat =
        rewardAtomic.toNat * params.operatorFeeBasisPoints.toNat / 10000 ∧
    ∃ plan,
      makePplnsCoinbasePlan backend window rewardAtomic params = .ok plan ∧
      plan.rewardAtomic = rewardAtomic ∧
      (plan.status = .ready ∨ plan.status = .emptyWindow ∨
        plan.status = .zeroPayout) ∧
      (plan.status = .emptyWindow ↔ window = {}) ∧
      (plan.status ≠ .ready → plan.destinations = []) ∧
      (plan.status = .ready →
        PayablePlan backend rewardAtomic plan.destinations ∧
        ∃ payouts,
          allocatePplnsReward backend window
              (rewardAtomic - operatorFeeAtomic params rewardAtomic) =
            .ok payouts ∧
          IsPplnsAllocation window.miners
            (rewardAtomic - operatorFeeAtomic params rewardAtomic) payouts ∧
          PaysAllocation params rewardAtomic payouts plan.destinations) ∧
      (plan.status = .zeroPayout →
        rewardAtomic = 0 ∨
          ∃ payouts,
            allocatePplnsReward backend window
                (rewardAtomic - operatorFeeAtomic params rewardAtomic) =
              .ok payouts ∧
            ∃ entry ∈ payouts, entry.amount = 0) := by
  refine ⟨operatorFeeAtomic_toNat accepted rewardAtomic, ?_⟩
  have fresh : ShareChain.Fresh backend start := .inr ⟨chainParams, configured⟩
  obtain ⟨⟨sound, trusted, _⟩, _, _⟩ := runOps_wellFormed fresh.wellFormed ran
  rcases ShareChain.buildSidechainPplnsWindowAtParent_inv sound trusted
      distinct accepted built with
    rfl | ⟨newest, older, isBranch, isWindow, positive⟩
  · refine ⟨planOf rewardAtomic (.error .emptyWindow), ?_, rfl,
      .inr (.inl rfl), ⟨fun _ => rfl, fun _ => rfl⟩, fun _ => rfl, nofun,
      nofun⟩
    rw [makePplnsCoinbasePlan_eq accepted]
    rfl
  have bound := ShareChain.branch_boundPayouts sound distinct isBranch
  have carried :
      ∀ share ∈ newest :: older, ∃ payout, share.payout = some payout := by
    intro share member
    obtain ⟨id, entry, found, rfl⟩ :=
      isBranch.exists_connected member
    exact ShareChain.payout_of_version2 (sound.keyed found).2
      (version2 id entry found)
  have notEmpty : window ≠ {} := by
    rintro rfl
    exact absurd positive (by decide)
  by_cases zero : rewardAtomic = 0
  · refine ⟨planOf rewardAtomic (.error .zeroPayout), ?_, rfl,
      .inr (.inr rfl), ⟨nofun, fun empty => (notEmpty empty).elim⟩,
      fun _ => rfl, nofun, fun _ => .inl zero⟩
    have someRows := isWindow.miners_ne_nil positive
    rw [makePplnsCoinbasePlan_eq accepted, if_neg (by simpa using someRows),
      isWindow.complete, if_neg (by decide), if_pos zero]
  · obtain ⟨payouts, allocated, isAllocation, outcome⟩ :=
      makePplnsCoinbasePlan_of_window accepted isWindow positive bound carried
        zero
    rcases outcome with ⟨planned, made⟩ | ⟨made, zeroEntry⟩
    · refine ⟨_, made, rfl, .inl rfl,
        ⟨nofun, fun empty => (notEmpty empty).elim⟩,
        fun notReady => (notReady rfl).elim, fun _ => ?_, nofun⟩
      obtain ⟨_, payable, others, othersAllocated, pays⟩ :=
        makePplnsCoinbasePlan_ready made rfl
      rw [allocated] at othersAllocated
      cases othersAllocated
      exact ⟨payable, payouts, allocated, isAllocation, pays⟩
    · exact ⟨_, made, rfl, .inr (.inr rfl),
        ⟨nofun, fun empty => (notEmpty empty).elim⟩, fun _ => rfl, nofun,
        fun _ => .inr ⟨payouts, allocated, zeroEntry⟩⟩

/-- A share of version 2 that pays one fixed identity. -/
def samplePaidShare (parentId : ShareId) (shareHeight nonce : UInt64) : Share :=
  { sampleShare parentId shareHeight nonce 1 with
    version := 2
    minerId := 1
    payout := some { spendPublicKey := 7, viewPublicKey := 7 } }

/-- A root and a child of version 2. -/
def samplePaidOps : List ChainOp :=
  [ .submit (samplePaidShare 0 0 0) sampleContext 1000 .light
  , .submit (samplePaidShare 1 1 1) sampleContext 1000 .light ]

/-- The window of the sample run at the child. -/
def samplePaidWindow : PplnsWindow where
  requestedWork := 2
  coveredWork := 2
  includedShares := 2
  complete := true
  miners := [{
    minerId := 1
    work := 2
    payout := some { spendPublicKey := 7, viewPublicKey := 7 } }]

/-- The only miner of the sample window is paid after the operator fee. -/
theorem samplePaidOps_plan :
    ∃ plan,
      makePplnsCoinbasePlan sampleBackend samplePaidWindow 1000
          sampleParameters =
        .ok plan ∧
      plan.destinations.map PplnsCoinbaseDestination.amount = [990, 10] ∧
      PayablePlan sampleBackend 1000 plan.destinations := by
  have same :
      ∀ item ∈ (finalState (runOps sampleBackend samplePaidOps
          sampleStart)).connected.toList,
        item.2.share.version = kShareVersion2 ∧
          item.2.share.payout =
            some { spendPublicKey := 7, viewPublicKey := 7 } := by
    decide +kernel
  have lookup :
      ∀ {id : ShareId} {entry : ConnectedShare},
        (finalState (runOps sampleBackend samplePaidOps
          sampleStart)).connected[id]? = some entry → _ :=
    fun {id entry} found => same (id, entry)
      (Std.ExtTreeMap.mem_toList_iff_getElem?_eq_some.mpr found)
  have distinct :
      DistinctPayouts sampleBackend
        (finalState (runOps sampleBackend samplePaidOps sampleStart)) := by
    intro first second entry other payout otherPayout found otherFound carried
      otherCarried _
    rw [(lookup found).2] at carried
    rw [(lookup otherFound).2] at otherCarried
    cases carried
    cases otherCarried
    rfl
  have built :
      buildSidechainPplnsWindowAtParent sampleBackend
          (finalState (runOps sampleBackend samplePaidOps sampleStart)) 2
          sampleParameters 2 =
        .ok samplePaidWindow := by
    decide +kernel
  obtain ⟨_, plan, made, _, _, _, _, ready, _⟩ :=
    makePplnsCoinbasePlan_sound sampleStart_built
      (eq_ok_of_succeeds (by decide +kernel)) distinct
      (fun _ _ found => (lookup found).1) ⟨_, rfl⟩ built 1000
  obtain ⟨expected, computed, isReady, amounts⟩ :
      ∃ expected,
        makePplnsCoinbasePlan sampleBackend samplePaidWindow 1000
            sampleParameters = .ok expected ∧
        expected.status = .ready ∧
        expected.destinations.map PplnsCoinbaseDestination.amount =
          [990, 10] :=
    ⟨{ status := .ready, rewardAtomic := 1000, destinations := [
        { minerId := 1
          payout := { spendPublicKey := 7, viewPublicKey := 7 }
          amount := 990 },
        { minerId := 1
          payout := { spendPublicKey := 1, viewPublicKey := 1 }
          amount := 10 }] }, by decide +kernel, rfl, rfl⟩
  rw [made] at computed
  cases computed
  exact ⟨plan, made, amounts, (ready isReady).1⟩

end ZanoP2pool
