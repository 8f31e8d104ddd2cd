import ZanoP2pool.HistoricalWork
import ZanoP2pool.MiningHeaderCommitment
import ZanoP2pool.P2pMiningContextCodec

namespace ZanoP2pool

open Foundation

/-!
# What the audit of a historical anchor decides

The scan over the local observations stops at the first conflict.  Its verdict is
nevertheless one about the set of the observations of the proposal's height and
parent, and the daemon is asked only when that set is empty.
-/

/-- Whether an observation is one of the proposal's height and parent. -/
def Observes
    (proposal : P2pMiningContextProposal)
    (observation : P2pMiningAnchor) :
    Prop :=
  observation.zanoHeight = proposal.zanoHeight ∧
    observation.prevHash = proposal.prevHash

instance
    (proposal : P2pMiningContextProposal)
    (observation : P2pMiningAnchor) :
    Decidable (Observes proposal observation) :=
  inferInstanceAs (Decidable (_ ∧ _))

/-- The scan ends without a conflict exactly when all observations agree. -/
theorem agreedObservation_eq_some_iff
    {seed : Hash256}
    {observations : List P2pMiningAnchor}
    {expected found : Option P2pMiningAnchor}
    {count : Nat} :
    (agreedObservation seed observations expected count).2 = some found ↔
      (∀ observation ∈ observations, observation.seed = seed) ∧
        (∀ observation ∈ expected.toList ++ observations,
          some observation = found) ∧
        (expected.toList ++ observations = [] → found = none) := by
  induction observations generalizing expected count with
  | nil =>
      rw [agreedObservation]
      cases expected with
      | none => simp [eq_comm]
      | some anchor => simp
  | cons observation rest inductionHypothesis =>
      rw [agreedObservation]
      by_cases conflict :
          observation.seed ≠ seed ∨ expected.any (observation ≠ ·) = true
      · rw [if_pos conflict]
        refine iff_of_false (by simp) ?_
        rintro ⟨seeds, agree, _⟩
        rcases conflict with otherSeed | differs
        · exact otherSeed (seeds observation List.mem_cons_self)
        · cases expected with
          | none => cases differs
          | some anchor =>
              have first := agree anchor List.mem_cons_self
              have second := agree observation
                (List.mem_append_right _ List.mem_cons_self)
              have same := Option.some.inj (second.trans first.symm)
              exact of_decide_eq_true differs same
      · rw [if_neg conflict, inductionHypothesis]
        push Not at conflict
        obtain ⟨seedEq, same⟩ := conflict
        have sameExpected : ∀ anchor ∈ expected, anchor = observation := by
          rintro anchor ⟨⟩
          by_contra differs
          exact same (decide_eq_true fun equal => differs equal.symm)
        constructor
        · rintro ⟨seeds, agree, _⟩
          refine ⟨?_, ?_, by simp⟩
          · rintro other member
            rcases List.mem_cons.mp member with rfl | later
            · exact seedEq
            · exact seeds other later
          · intro other member
            rcases List.mem_append.mp member with earlier | later
            · rw [sameExpected other (by simpa using earlier)]
              exact agree observation (by simp)
            · exact agree other (by simpa using later)
        · rintro ⟨seeds, agree, _⟩
          exact ⟨fun other later => seeds other (List.mem_cons_of_mem _ later),
            fun other member => agree other (List.mem_append_right _
              (by simpa using member)), by simp⟩

/-- The verdict of the scan depends on the set of observations only. -/
theorem agreedObservation_congr
    {seed : Hash256}
    {first second : List P2pMiningAnchor}
    (same : ∀ observation, observation ∈ first ↔ observation ∈ second)
    (count other : Nat) :
    (agreedObservation seed first none count).2 =
      (agreedObservation seed second none other).2 := by
  refine Option.ext fun found => ?_
  rw [agreedObservation_eq_some_iff, agreedObservation_eq_some_iff]
  simp only [Option.toList_none, List.nil_append, same,
    List.eq_nil_iff_forall_not_mem]

section Audit

variable (backend : Backend)
variable (json : JsonBackend)
variable (proposal : P2pMiningContextProposal)

/-- The audit once the parent of the proposal is judged. -/
def auditObservations
    (observations : List P2pMiningAnchor)
    (historicalPowLookup :
      Option (UInt64 → QueryM (Option RpcHistoricalPowContext)))
    (seed : Hash256)
    (parent : HistoricalParentResult) :
    QueryM HistoricalAnchorResult :=
  let audited : HistoricalAnchorResult :=
    { miningHeaderHash := parent.miningHeaderHash }
  if parent.status ≠ .parentMatchedUntrusted then
    return { audited with status := unmatchedParentStatus parent.status }
  else if proposal.seed ≠ seed then
    return { audited with status := .seedMismatch }
  else
    let agreed := agreedObservation seed
      (observations.filter fun observation => Observes proposal observation)
      none 0
    let found := { audited with matchingObservations := agreed.1 }
    match agreed.2 with
    | none => return { found with status := .localObservationConflict }
    | some (some expected) =>
        if proposal.networkDifficulty ≠ expected.networkDifficulty ∨
            proposal.blockRewardWithoutFee ≠
              expected.blockRewardWithoutFee then
          return { found with status := .localObservationMismatch }
        else
          return { found with status := .anchorMatchedUntrusted }
    | some none =>
        auditCanonicalPowContext proposal found historicalPowLookup

variable {backend}
variable {json}
variable {proposal}
variable {observations other : List P2pMiningAnchor}
variable {lookup : UInt64 → QueryM RpcCanonicalHeader}
variable
  {historicalPowLookup :
    Option (UInt64 → QueryM (Option RpcHistoricalPowContext))}

/-- The parts of an audit that returns. -/
theorem auditHistoricalLocalAnchor_eq_ok
    {calls final : Nat}
    {result : HistoricalAnchorResult} :
    auditHistoricalLocalAnchor backend json proposal observations lookup
        historicalPowLookup calls = .ok result final ↔
      ∃ seed parent middle,
        progpowzSeed backend proposal.zanoHeight = .ok seed ∧
        auditHistoricalParent backend json proposal lookup calls =
          .ok parent middle ∧
        auditObservations proposal observations historicalPowLookup seed parent
          middle = .ok result final := by
  have shape :
      auditHistoricalLocalAnchor backend json proposal observations lookup
          historicalPowLookup =
        (orThrow (progpowzSeed backend proposal.zanoHeight) >>= fun seed =>
          auditHistoricalParent backend json proposal lookup >>= fun parent =>
            auditObservations proposal observations historicalPowLookup seed
              parent) :=
    rfl
  rw [shape, bind_eq_ok]
  constructor
  · rintro ⟨seed, start, computed, rest⟩
    obtain ⟨seeded, rfl⟩ := orThrow_eq_ok.mp computed
    obtain ⟨parent, middle, judged, verdict⟩ := bind_eq_ok.mp rest
    exact ⟨seed, parent, middle, seeded, judged, verdict⟩
  · rintro ⟨seed, parent, middle, seeded, judged, rest⟩
    exact ⟨seed, calls, orThrow_eq_ok.mpr ⟨seeded, rfl⟩,
      bind_eq_ok.mpr ⟨parent, middle, judged, rest⟩⟩

/-- The reconstruction of a template ignores the observations counted so far. -/
theorem auditCanonicalPowContext_status
    {counted recounted result : HistoricalAnchorResult}
    {middle final : Nat}
    (returns :
      auditCanonicalPowContext proposal counted historicalPowLookup middle =
        .ok result final) :
    ∃ again,
      auditCanonicalPowContext proposal recounted historicalPowLookup middle =
          .ok again final ∧
        again.status = result.status := by
  unfold auditCanonicalPowContext at returns ⊢
  cases historicalPowLookup with
  | none =>
      cases returns
      exact ⟨_, rfl, rfl⟩
  | some lookupPow =>
      obtain ⟨context, asked, answered, verdict⟩ := bind_eq_ok.mp returns
      simp only
      rw [bind_of_ok answered]
      cases context with
      | none =>
          cases verdict
          exact ⟨_, rfl, rfl⟩
      | some historical =>
          simp only at verdict ⊢
          split_ifs at verdict ⊢
          · cases verdict
            exact ⟨_, rfl, rfl⟩
          · cases verdict
            exact ⟨_, rfl, rfl⟩

/-- Equal sets of matching observations lead to one verdict. -/
theorem auditObservations_congr
    {seed : Hash256}
    {parent : HistoricalParentResult}
    {middle final : Nat}
    {result : HistoricalAnchorResult}
    (same :
      ∀ observation,
        Observes proposal observation →
          (observation ∈ observations ↔ observation ∈ other))
    (returns :
      auditObservations proposal observations historicalPowLookup seed parent
        middle = .ok result final) :
    ∃ again,
      auditObservations proposal other historicalPowLookup seed parent
          middle = .ok again final ∧
        again.status = result.status := by
  have agreed :
      (agreedObservation seed
        (observations.filter fun observation => Observes proposal observation)
        none 0).2 =
      (agreedObservation seed
        (other.filter fun observation => Observes proposal observation)
        none 0).2 := by
    refine agreedObservation_congr (fun observation => ?_) 0 0
    simp only [List.mem_filter, decide_eq_true_eq]
    exact and_congr_left fun matching => same observation matching
  unfold auditObservations at returns ⊢
  simp only at returns ⊢
  by_cases unmatched : parent.status ≠ .parentMatchedUntrusted
  · rw [if_pos unmatched] at returns ⊢
    exact ⟨result, returns, rfl⟩
  rw [if_neg unmatched] at returns ⊢
  by_cases otherSeed : proposal.seed ≠ seed
  · rw [if_pos otherSeed] at returns ⊢
    exact ⟨result, returns, rfl⟩
  rw [if_neg otherSeed, ← agreed]
  rw [if_neg otherSeed] at returns
  cases verdict : (agreedObservation seed
      (observations.filter fun observation => Observes proposal observation)
      none 0).2 with
  | none =>
      rw [verdict] at returns
      cases returns
      exact ⟨_, rfl, rfl⟩
  | some found =>
      rw [verdict] at returns
      cases found with
      | some expected =>
          simp only at returns ⊢
          split_ifs at returns ⊢
          · cases returns
            exact ⟨_, rfl, rfl⟩
          · cases returns
            exact ⟨_, rfl, rfl⟩
      | none =>
          simp only at returns ⊢
          exact auditCanonicalPowContext_status returns
/-- When the parent of a proposal is found matched. -/
theorem auditHistoricalParent_matched_iff
    {calls middle : Nat}
    {parent : HistoricalParentResult}
    (judged :
      auditHistoricalParent backend json proposal lookup calls =
        .ok parent middle) :
    ∃ first second between,
      lookup (proposal.zanoHeight - 1) calls = .ok first between ∧
      lookup (proposal.zanoHeight - 1) between = .ok second middle ∧
      (parent.status = .parentMatchedUntrusted ↔
        first.hash = second.hash ∧ first.hash = proposal.prevHash) := by
  unfold auditHistoricalParent at judged
  by_cases genesis : proposal.zanoHeight = 0
  · rw [if_pos genesis] at judged
    cases judged
  rw [if_neg genesis] at judged
  obtain ⟨miningHeaderHash, start, structural, sampled⟩ :=
    bind_eq_ok.mp judged
  obtain ⟨_, rfl⟩ := orThrow_eq_ok.mp structural
  obtain ⟨first, between, firstFound, afterFirst⟩ := bind_eq_ok.mp sampled
  obtain ⟨second, after, secondFound, compared⟩ := bind_eq_ok.mp afterFirst
  clear judged sampled afterFirst
  refine ⟨first, second, between, firstFound, ?_⟩
  split_ifs at compared with invalid changed matched
  · cases compared
  · cases compared
    exact ⟨secondFound, iff_of_false (by simp) fun both => changed both.1⟩
  · cases compared
    exact ⟨secondFound, iff_of_true rfl ⟨not_not.mp changed, matched⟩⟩
  · cases compared
    exact ⟨secondFound, iff_of_false (by simp) fun both => matched both.2⟩

/-- The observations of a proposal are all equal and agree with it. -/
def ObservationsAgree
    (proposal : P2pMiningContextProposal)
    (observations : List P2pMiningAnchor)
    (seed : Hash256) :
    Prop :=
  ∀ observation ∈ observations, Observes proposal observation →
    observation.seed = seed ∧
    observation.networkDifficulty = proposal.networkDifficulty ∧
    observation.blockRewardWithoutFee = proposal.blockRewardWithoutFee ∧
    ∀ another ∈ observations, Observes proposal another →
      another = observation

/-- The reconstruction of a template has the fields of the proposal. -/
structure ContextAgrees
    (proposal : P2pMiningContextProposal)
    (context : RpcHistoricalPowContext) :
    Prop where
  height : context.height = proposal.zanoHeight
  parent : context.parentHash = proposal.prevHash
  networkDifficulty :
    context.networkDifficulty = proposal.networkDifficulty
  reward :
    context.blockRewardWithoutFee = proposal.blockRewardWithoutFee
  confirmed : proposal.zanoHeight ≤ context.confirmingPowHeight

/-- When the reconstruction of a template is accepted. -/
theorem auditCanonicalPowContext_matched_iff
    {counted result : HistoricalAnchorResult}
    {middle final : Nat}
    (returns :
      auditCanonicalPowContext proposal counted historicalPowLookup middle =
        .ok result final) :
    result.status = .anchorMatchedUntrusted ↔
      ∃ ask context answered,
        historicalPowLookup = some ask ∧
        ask proposal.zanoHeight middle = .ok (some context) answered ∧
        ContextAgrees proposal context := by
  unfold auditCanonicalPowContext at returns
  cases historicalPowLookup with
  | none =>
      cases returns
      refine iff_of_false (by simp) ?_
      rintro ⟨ask, _, _, ⟨⟩, _⟩
  | some lookupPow =>
      obtain ⟨found, asked, answered, verdict⟩ := bind_eq_ok.mp returns
      cases found with
      | none =>
          cases verdict
          refine iff_of_false (by simp) ?_
          rintro ⟨ask, context, other, ⟨⟩, again, _⟩
          rw [answered] at again
          cases again
      | some historical =>
          simp only at verdict
          split_ifs at verdict with mismatch
          · cases verdict
            refine iff_of_false (by simp) ?_
            rintro ⟨ask, context, other, ⟨⟩, again, agrees⟩
            rw [answered] at again
            cases again
            rcases mismatch with differs | differs | differs | differs | late
            · exact differs agrees.height
            · exact differs agrees.parent
            · exact differs agrees.networkDifficulty
            · exact differs agrees.reward
            · exact absurd agrees.confirmed (UInt64.not_le.mpr late)
          · cases verdict
            push Not at mismatch
            obtain ⟨height, parent, difficulty, reward, confirmed⟩ := mismatch
            exact iff_of_true rfl ⟨lookupPow, historical, _, rfl, answered,
              height, parent, difficulty, reward, UInt64.not_lt.mp confirmed⟩

/-- When the audit accepts the fields of a proposal whose parent is judged. -/
theorem auditObservations_matched_iff
    {seed : Hash256}
    {parent : HistoricalParentResult}
    {middle final : Nat}
    {result : HistoricalAnchorResult}
    (returns :
      auditObservations proposal observations historicalPowLookup seed parent
        middle = .ok result final) :
    result.status = .anchorMatchedUntrusted ↔
      parent.status = .parentMatchedUntrusted ∧
      proposal.seed = seed ∧
      ((∃ observation ∈ observations, Observes proposal observation) ∧
          ObservationsAgree proposal observations seed ∨
        (∀ observation ∈ observations, ¬ Observes proposal observation) ∧
          ∃ ask context answered,
            historicalPowLookup = some ask ∧
            ask proposal.zanoHeight middle = .ok (some context) answered ∧
            ContextAgrees proposal context) := by
  unfold auditObservations at returns
  simp only at returns
  by_cases unmatched : parent.status ≠ .parentMatchedUntrusted
  · rw [if_pos unmatched] at returns
    cases returns
    refine iff_of_false ?_ fun holds => unmatched holds.1
    cases parent.status <;> simp [unmatchedParentStatus]
  rw [if_neg unmatched] at returns
  by_cases otherSeed : proposal.seed ≠ seed
  · rw [if_pos otherSeed] at returns
    cases returns
    exact iff_of_false (by simp) fun holds => otherSeed holds.2.1
  rw [if_neg otherSeed] at returns
  have sound := not_not.mp unmatched
  have seeded := not_not.mp otherSeed
  have scan := fun found => @agreedObservation_eq_some_iff seed
    (observations.filter fun observation => Observes proposal observation)
    none found 0
  simp only [Option.toList_none, List.nil_append, List.mem_filter,
    decide_eq_true_eq, and_imp] at scan
  cases verdict : (agreedObservation seed
      (observations.filter fun observation => Observes proposal observation)
      none 0).2 with
  | none =>
      rw [verdict] at returns
      cases returns
      refine iff_of_false (by simp) ?_
      rintro ⟨_, _, ⟨⟨found, member, matching⟩, agree⟩ | ⟨none, _⟩⟩
      · have conflict := (scan (some found)).mpr ⟨
          fun other included matched => (agree other included matched).1,
          fun other included matched => congrArg some
            ((agree found member matching).2.2.2 other included matched), by
            intro empty
            have absent := List.filter_eq_nil_iff.mp empty found member
            exact absurd (decide_eq_true matching) absent⟩
        rw [verdict] at conflict
        cases conflict
      · have empty := (scan Option.none).mpr ⟨fun other included matched =>
          absurd matched (none other included), fun other included matched =>
          absurd matched (none other included), fun _ => rfl⟩
        rw [verdict] at empty
        cases empty
  | some found =>
      rw [verdict] at returns
      obtain ⟨seeds, equal, empty⟩ := (scan found).mp verdict
      cases found with
      | none =>
          have unobserved :
              ∀ observation ∈ observations,
                ¬ Observes proposal observation := by
            intro observation member matching
            cases equal observation member matching
          rw [auditCanonicalPowContext_matched_iff returns]
          constructor
          · exact fun found => ⟨sound, seeded, .inr ⟨unobserved, found⟩⟩
          · rintro ⟨_, _, ⟨⟨other, member, matching⟩, _⟩ | ⟨_, found⟩⟩
            · exact absurd matching (unobserved other member)
            · exact found
      | some expected =>
          have present :
              ∃ observation ∈ observations, Observes proposal observation := by
            by_contra absent
            push Not at absent
            have none := empty (List.filter_eq_nil_iff.mpr
              fun observation member => by
                simpa using absent observation member)
            cases none
          obtain ⟨observation, member, matching⟩ := present
          obtain rfl :=
            Option.some.inj (equal observation member matching)
          simp only at returns
          split_ifs at returns with mismatch
          · cases returns
            refine iff_of_false (by simp) ?_
            rintro ⟨_, _, ⟨_, agree⟩ | ⟨none, _⟩⟩
            · obtain ⟨_, difficulty, reward, _⟩ :=
                agree observation member matching
              rcases mismatch with differs | differs
              · exact differs difficulty.symm
              · exact differs reward.symm
            · exact none observation member matching
          · cases returns
            push Not at mismatch
            obtain ⟨difficulty, reward⟩ := mismatch
            refine iff_of_true rfl ⟨sound, seeded,
              .inl ⟨⟨observation, member, matching⟩, ?_⟩⟩
            intro other included matched
            obtain rfl := Option.some.inj (equal other included matched)
            exact ⟨seeds other included matched, difficulty.symm,
              reward.symm, fun another inside observed =>
                Option.some.inj (equal another inside observed)⟩
/-- An observation of the proposal's height and parent settles the audit. -/
theorem auditObservations_daemon_unused
    {observation : P2pMiningAnchor}
    (member : observation ∈ observations)
    (matching : Observes proposal observation)
    (anotherLookup :
      Option (UInt64 → QueryM (Option RpcHistoricalPowContext)))
    (seed : Hash256)
    (parent : HistoricalParentResult) :
    auditObservations proposal observations historicalPowLookup seed parent =
      auditObservations proposal observations anotherLookup seed parent := by
  unfold auditObservations
  have decided :
      (agreedObservation seed
        (observations.filter fun observation => Observes proposal observation)
        none 0).2 ≠ some none := by
    intro unsettled
    obtain ⟨_, equal, _⟩ := agreedObservation_eq_some_iff.mp unsettled
    have none := equal observation (by simpa using ⟨member, matching⟩)
    cases none
  generalize agreedObservation seed
    (observations.filter fun observation => Observes proposal observation)
    none 0 = agreed at decided ⊢
  obtain ⟨count, _ | _ | expected⟩ := agreed
  · rfl
  · exact absurd rfl decided
  · rfl

/--
The status of a historical audit is one about the set of the matching
observations; the daemon has a say only when that set is empty; and the anchor
matches exactly when the parent, the seed and one of the two sources agree.
-/
theorem auditHistoricalLocalAnchor_decides :
    (∀ calls result final,
      auditHistoricalLocalAnchor backend json proposal observations lookup
          historicalPowLookup calls = .ok result final →
        (∀ other,
          (∀ observation, Observes proposal observation →
            (observation ∈ observations ↔ observation ∈ other)) →
          ∃ again,
            auditHistoricalLocalAnchor backend json proposal other lookup
                historicalPowLookup calls = .ok again final ∧
              again.status = result.status) ∧
        ∃ first second between middle seed,
          lookup (proposal.zanoHeight - 1) calls = .ok first between ∧
          lookup (proposal.zanoHeight - 1) between = .ok second middle ∧
          progpowzSeed backend proposal.zanoHeight = .ok seed ∧
          (result.status = .anchorMatchedUntrusted ↔
            (first.hash = second.hash ∧ first.hash = proposal.prevHash) ∧
            proposal.seed = seed ∧
            ((∃ observation ∈ observations, Observes proposal observation) ∧
                ObservationsAgree proposal observations seed ∨
              (∀ observation ∈ observations, ¬ Observes proposal observation) ∧
                ∃ ask context answered,
                  historicalPowLookup = some ask ∧
                  ask proposal.zanoHeight middle =
                    .ok (some context) answered ∧
                  ContextAgrees proposal context))) ∧
    ((∃ observation ∈ observations, Observes proposal observation) →
      ∀ anotherLookup,
        auditHistoricalLocalAnchor backend json proposal observations lookup
            anotherLookup =
          auditHistoricalLocalAnchor backend json proposal observations lookup
            historicalPowLookup) := by
  constructor
  · intro calls result final returns
    obtain ⟨seed, parent, middle, seeded, judged, verdict⟩ :=
      auditHistoricalLocalAnchor_eq_ok.mp returns
    constructor
    · intro other same
      obtain ⟨again, repeated, status⟩ := auditObservations_congr same verdict
      exact ⟨again, auditHistoricalLocalAnchor_eq_ok.mpr
        ⟨seed, parent, middle, seeded, judged, repeated⟩, status⟩
    · obtain ⟨first, second, between, firstFound, secondFound, matched⟩ :=
        auditHistoricalParent_matched_iff judged
      refine ⟨first, second, between, middle, seed, firstFound, secondFound,
        seeded, ?_⟩
      rw [auditObservations_matched_iff verdict, matched]
  · rintro ⟨observation, member, matching⟩ anotherLookup
    refine bind_congr fun seed => ?_
    refine bind_congr fun parent => ?_
    exact auditObservations_daemon_unused member matching historicalPowLookup
      seed parent
end Audit

/-- A template of height 7 without regular transactions. -/
def sampleHistoricalProposal : P2pMiningContextProposal where
  zanoHeight := 7
  prevHash := keyOfBytes (List.replicate 32 5)
  networkDifficulty := 100
  blockReward := 3
  blockRewardWithoutFee := 3
  blockTemplateBlob :=
    [2] ++ List.replicate 8 0 ++ List.replicate 32 5 ++ [1, 1, 0] ++
      [4, 1, 0, 7, 0, 0, 6] ++ sampleProofs ++ [0]
  minerTxTgcJson := sampleTgcText 0

/-- What this node saw of height 7, and an observation of another height. -/
def sampleObservations : List P2pMiningAnchor :=
  [ { zanoHeight := 8 }
  , { zanoHeight := 7, prevHash := keyOfBytes (List.replicate 32 5)
      networkDifficulty := 100, blockRewardWithoutFee := 3 } ]

/-- A daemon on whose chain the sample template was mined. -/
def sampleHeaderLookup (height : UInt64) : QueryM RpcCanonicalHeader :=
  query fun _ => .ok { height, hash := keyOfBytes (List.replicate 32 5) }

/-- The sample template matches what this node saw, in any order. -/
theorem sampleHistoricalProposal_decided :
    ∃ result final,
      auditHistoricalLocalAnchor spellingBackend sampleTgcJson
          sampleHistoricalProposal sampleObservations sampleHeaderLookup none
          0 = .ok result final ∧
        result.status = .anchorMatchedUntrusted ∧
        ∃ again,
          auditHistoricalLocalAnchor spellingBackend sampleTgcJson
              sampleHistoricalProposal sampleObservations.reverse
              sampleHeaderLookup none 0 = .ok again final ∧
            again.status = result.status := by
  have runs :
      (returned (auditHistoricalLocalAnchor spellingBackend sampleTgcJson
        sampleHistoricalProposal sampleObservations sampleHeaderLookup none
        0)).map HistoricalAnchorResult.status =
        some .anchorMatchedUntrusted := by
    decide +kernel
  obtain ⟨result, returns, matched⟩ := Option.map_eq_some_iff.mp runs
  have audited := eq_ok_of_returned returns
  refine ⟨result, _, audited, matched, ?_⟩
  exact (auditHistoricalLocalAnchor_decides.1 _ _ _ audited).1
    sampleObservations.reverse fun _ _ => List.mem_reverse.symm

end ZanoP2pool
