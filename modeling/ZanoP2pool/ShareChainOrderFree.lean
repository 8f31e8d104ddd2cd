import ZanoP2pool.ShareChainInvariants
import ZanoP2pool.ShareChainPool

namespace ZanoP2pool

open Foundation

/-!
# Order independence of admission

Every call that offers a share adds at most one record to the pool the chain
accounts for.  A chain between calls is determined by that pool, so two runs
that offer the same records end with the same shares and the same tip.
-/

namespace ShareChain.Accounts

variable {backend : Backend} {chain : ShareChain}
variable {pool : Set OrphanShare}

/-- A record whose identity the chain knows is in the pool. -/
theorem mem_of_known
    (sound : Sound backend chain)
    (accounts : Accounts pool chain)
    {record : OrphanShare}
    (distinct :
      DistinctRecords chain.difficultyPolicy (insert record pool))
    (known :
      (chain.contains record.id || chain.isOrphan record.id) = true) :
    record ∈ pool := by
  have member := Set.mem_insert record pool
  have contained := Set.subset_insert record pool
  rw [Bool.or_eq_true] at known
  rcases known with connected | buffered
  · obtain ⟨entry, found⟩ := contains_iff_getElem?.mp connected
    obtain ⟨other, below, lineage, sameId, _⟩ := accounts.connected found
    cases lineage with
    | extend _ otherMember _ _ =>
        have same :=
          distinct.injective (contained otherMember) member sameId
        exact same ▸ otherMember
  · obtain ⟨orphan, found⟩ := contains_iff_getElem?.mp buffered
    have orphanMember := accounts.orphans found
    have same :=
      distinct.injective (contained orphanMember) member
        (sound.orphanKeyed found).1
    exact same ▸ orphanMember

/-- A record inserted without an exception is accounted for. -/
theorem add
    (sound : Sound backend chain)
    (accounts : Accounts pool chain)
    {record : OrphanShare}
    (distinct :
      DistinctRecords chain.difficultyPolicy (insert record pool))
    (structural :
      structuralRejectReason chain.difficultyPolicy record.share = .none)
    {value : AddShareResult}
    {next : ShareChain}
    (outcome : AddOutcome backend chain record (.ok value next)) :
    Accounts (insert record pool) next := by
  cases outcome with
  | duplicate known =>
      have known := accounts.mem_of_known sound distinct known
      rw [Set.insert_eq_of_mem known]
      exact accounts
  | malformed _ _ named refusal =>
      rw [structural] at named
      exact (refusal named.symm).elim
  | buffered _ notBuffered _ _ _ =>
      exact accounts.buffer distinct notBuffered
  | refused _ _ _ isBranch judged refusal =>
      exact accounts.refuse distinct isBranch (by
        rw [judged]
        simpa using refusal)
  | @connected branch promotedOrphans _ fresh _ wellFormed isBranch judged
      promoted =>
      have attached := accounts.attach distinct fresh isBranch judged
      have growth : Growth backend (some record) chain
          (chain.attach branch record) :=
        .attach (.inl rfl) wellFormed fresh isBranch judged
      have promotion :
          Growths backend none (chain.attach branch record)
            (finalState
              (promoteChildren record.id (chain.attach branch record))) :=
        promoteChildren_growths record.id (growth.sound sound) none
      rw [promoted] at promotion
      exact attached.growths (growth.sound sound) distinct promotion

section Determined

variable (sound : Sound backend chain)
variable (settled : Settled chain)
variable (distinct : DistinctRecords chain.difficultyPolicy pool)
variable (accounts : Accounts pool chain)

include settled in
/-- Between calls no orphan waits for a connected parent. -/
theorem waits_missing
    {id parentId : ShareId}
    (waits : chain.WaitsFor id parentId) :
    chain.connected[parentId]? = none := by
  apply contains_eq_false_iff.mp
  rw [← Bool.not_eq_true]
  intro connected
  have impossible := settled.ready id parentId waits connected
  simp at impossible

include sound settled distinct accounts in
/-- The record at the top of every lineage is connected. -/
theorem connected_of_lineage
    {record : OrphanShare}
    {below : List OrphanShare}
    (lineage :
      RecordLineage chain.difficultyPolicy pool (record :: below)) :
    chain.connected[record.id]? = some (lineageEntry record below) := by
  -- Every proper part of the lineage is connected, so the record neither
  -- waits for its parent nor is refused on another path.
  generalize shape : record :: below = path at lineage
  induction lineage generalizing record below with
  | root => cases shape
  | @extend item rest restLineage member parent accepted inductionHypothesis =>
      obtain ⟨rfl, rfl⟩ := List.cons.inj shape
      rcases accounts.everyRecord member with
        ⟨entry, found⟩ | waiting | refused
      · obtain ⟨other, otherBelow, otherLineage, sameId, rfl⟩ :=
          accounts.connected found
        have samePath :=
          otherLineage.unique distinct
            (.extend restLineage member parent accepted) sameId
        obtain ⟨rfl, rfl⟩ := List.cons.inj samePath
        exact found
      · have missing :=
          waits_missing settled ⟨record, waiting, rfl⟩
        cases below with
        | nil => exact (sound.orphanParent waiting parent).elim
        | cons top deeper =>
            have connected := inductionHypothesis (rfl : top :: deeper = _)
            have sameParent : record.share.parentId = top.id := parent
            rw [sameParent, connected] at missing
            cases missing
      · obtain ⟨other, otherLineage, otherParent, rejected⟩ := refused
        have samePath : other = below :=
          otherLineage.unique distinct restLineage
            (otherParent.symm.trans parent)
        exact (rejected (samePath ▸ accepted)).elim

include sound settled distinct accounts in
/-- The connected entries are exactly those of the lineages of the pool. -/
theorem connected_iff
    {id : ShareId}
    {entry : ConnectedShare} :
    chain.connected[id]? = some entry ↔
      ∃ record below,
        RecordLineage chain.difficultyPolicy pool (record :: below) ∧
        record.id = id ∧
        entry = lineageEntry record below := by
  constructor
  · exact fun found => accounts.connected found
  · rintro ⟨record, below, lineage, rfl, rfl⟩
    exact accounts.connected_of_lineage sound settled distinct lineage

include sound settled distinct accounts in
/-- The orphans are exactly the records whose parent has no lineage. -/
theorem orphans_iff
    {id : ShareId}
    {orphan : OrphanShare} :
    chain.orphans[id]? = some orphan ↔
      orphan ∈ pool ∧
      orphan.id = id ∧
      ∀ below,
        RecordLineage chain.difficultyPolicy pool below →
        orphan.share.parentId ≠
          (recordGenealogy chain.difficultyPolicy).tip below := by
  constructor
  · intro found
    refine ⟨accounts.orphans found, (sound.orphanKeyed found).1, ?_⟩
    intro below lineage parent
    cases below with
    | nil => exact sound.orphanParent found parent
    | cons top deeper =>
        have connected :=
          accounts.connected_of_lineage sound settled distinct lineage
        have missing := waits_missing settled ⟨orphan, found, parent⟩
        have present :
            chain.connected[
              (recordGenealogy chain.difficultyPolicy).tip
                (top :: deeper)]? = some _ := connected
        rw [missing] at present
        cases present
  · rintro ⟨member, rfl, parentless⟩
    rcases accounts.everyRecord member with
      ⟨entry, found⟩ | waiting | refused
    · obtain ⟨other, below, lineage, sameId, _⟩ := accounts.connected found
      cases lineage with
      | extend belowLineage otherMember parent _ =>
          have same := distinct.injective otherMember member sameId
          exact (parentless below belowLineage (same ▸ parent)).elim
    · exact waiting
    · obtain ⟨below, lineage, parent, _⟩ := refused
      exact (parentless below lineage parent).elim

end Determined

/-- Chains that account for one pool hold the same shares and the same tip. -/
theorem unique
    {other : ShareChain}
    (wellFormed : WellFormed backend chain)
    (otherWellFormed : WellFormed backend other)
    (samePolicy : other.difficultyPolicy = chain.difficultyPolicy)
    (distinct : DistinctRecords chain.difficultyPolicy pool)
    (accounts : Accounts pool chain)
    (otherAccounts : Accounts pool other) :
    chain.connected = other.connected ∧
      chain.orphans = other.orphans ∧
      chain.bestTipId = other.bestTipId := by
  have otherDistinct : DistinctRecords other.difficultyPolicy pool := by
    rw [samePolicy]
    exact distinct
  have sameConnected : chain.connected = other.connected := by
    apply Std.ExtTreeMap.ext_getElem?
    intro id
    apply Option.ext
    intro entry
    rw [accounts.connected_iff wellFormed.sound wellFormed.settled distinct,
      otherAccounts.connected_iff otherWellFormed.sound
        otherWellFormed.settled otherDistinct, samePolicy]
  have sameOrphans : chain.orphans = other.orphans := by
    apply Std.ExtTreeMap.ext_getElem?
    intro id
    apply Option.ext
    intro orphan
    rw [accounts.orphans_iff wellFormed.sound wellFormed.settled distinct,
      otherAccounts.orphans_iff otherWellFormed.sound
        otherWellFormed.settled otherDistinct, samePolicy]
  refine ⟨sameConnected, sameOrphans, ?_⟩
  have best := wellFormed.sound.bestTip
  rw [sameConnected] at best
  exact best.unique otherWellFormed.sound.selfKeyed
    otherWellFormed.sound.bestTip

end ShareChain.Accounts

/-- Distinct listed shares have distinct and nonzero identities. -/
structure DistinctShareIds
    (backend : Backend)
    (shares : List Share) :
    Prop where
  injective :
    ∀ first ∈ shares, ∀ second ∈ shares, ∀ id,
      shareId backend first = .ok id → shareId backend second = .ok id →
        first = second
  nonzero : ∀ share ∈ shares, shareId backend share ≠ .ok 0

/-- Whether two shares that have identities have different ones or are equal. -/
def identitiesApart
    (backend : Backend)
    (first second : Share) :
    Bool :=
  match shareId backend first, shareId backend second with
  | .ok firstId, .ok secondId => firstId != secondId || first == second
  | _, _ => true

theorem identitiesApart_iff
    {backend : Backend}
    {first second : Share} :
    identitiesApart backend first second = true ↔
      ∀ id, shareId backend first = .ok id →
        shareId backend second = .ok id → first = second := by
  unfold identitiesApart
  cases shareId backend first with
  | error _ => simp
  | ok firstId =>
      cases shareId backend second with
      | error _ => simp
      | ok secondId =>
          simp only [Bool.or_eq_true, bne_iff_ne, ne_eq, beq_iff_eq,
            Except.ok.injEq]
          constructor
          · rintro apart id rfl sameId
            exact apart.resolve_left (not_not_intro sameId.symm)
          · intro determined
            exact or_iff_not_imp_left.mpr fun same =>
              determined firstId rfl (not_not.mp same).symm

instance
    (backend : Backend)
    (shares : List Share) :
    Decidable (DistinctShareIds backend shares) :=
  decidable_of_iff
    ((∀ first ∈ shares, ∀ second ∈ shares,
        identitiesApart backend first second = true) ∧
      ∀ share ∈ shares, shareId backend share ≠ .ok 0)
    (by
      simp only [identitiesApart_iff]
      exact ⟨fun both => ⟨both.1, both.2⟩,
        fun distinct => ⟨distinct.injective, distinct.nonzero⟩⟩)

namespace ChainOp

open ShareChain

variable {backend : Backend} {policy : Option DifficultyPolicy}
variable {op : ChainOp} {record : OrphanShare}

/-- The record a call offers to the chain, if its share passes alone. -/
def offeredRecord
    (backend : Backend)
    (policy : Option DifficultyPolicy) :
    ChainOp → Option OrphanShare
  | .submit share trustedContext now mode =>
      vetSubmission backend policy share trustedContext now mode
  | .addUnchecked share =>
      match shareId backend share with
      | .ok id =>
          if structuralRejectReason policy share = .none then
            some (uncheckedRecord share id)
          else
            none
      | .error _ => none
  | _ => none

/-- An offered record holds the share of the call under its identity. -/
theorem offeredRecord_eq_some
    (offered : op.offeredRecord backend policy = some record) :
    op.share? = some record.share ∧
      shareId backend record.share = .ok record.id ∧
      structuralRejectReason policy record.share = .none := by
  cases op with
  | submit share trustedContext now mode =>
      obtain ⟨id, validation, checks, rfl⟩ :=
        vetSubmission_eq_some.mp offered
      exact ⟨rfl, checks.keyed, checks.structural⟩
  | addUnchecked share =>
      simp only [offeredRecord] at offered
      split at offered
      · rename_i id keyed
        split_ifs at offered with structural
        cases offered
        exact ⟨rfl, keyed, structural⟩
      · cases offered
  | revalidate _ _ _ _ => cases offered
  | restore _ => cases offered
  | prune _ => cases offered

/--
A call that is given a share and returns normally inserts the offered record,
or leaves the chain alone when it offers none.
-/
theorem run_offer
    {chain next : ShareChain}
    (sound : Sound backend chain)
    (offers : op.share?.isSome = true)
    (ran : op.run backend chain = .ok () next) :
    (∃ record value,
      op.offeredRecord backend chain.difficultyPolicy = some record ∧
      AddOutcome backend chain record (.ok value next)) ∨
    (op.offeredRecord backend chain.difficultyPolicy = none ∧
      next = chain) := by
  cases op with
  | submit share trustedContext now mode =>
      obtain ⟨value, submitted⟩ := discard_eq_ok ran
      rcases submitShare_outcome sound.standing share trustedContext now mode with
        ⟨record, vetted, outcome⟩ | ⟨unvetted, unchanged⟩
      · rw [submitted] at outcome
        exact .inl ⟨record, value, vetted, outcome⟩
      · refine .inr ⟨unvetted, ?_⟩
        rw [submitted] at unchanged
        rcases unchanged with ⟨thrown, same⟩ | ⟨other, same, _⟩
        · cases same
        · cases same
          rfl
  | addUnchecked share =>
      obtain ⟨value, added⟩ := discard_eq_ok ran
      rcases addShareUnchecked_outcome sound.standing share with
        ⟨id, keyed, outcome⟩ | ⟨thrown, _, same⟩
      · rw [added] at outcome
        by_cases structural :
            structuralRejectReason chain.difficultyPolicy share = .none
        · refine .inl ⟨_, value, ?_, outcome⟩
          simp only [offeredRecord, keyed, if_pos structural]
        · refine .inr ⟨by simp [offeredRecord, keyed, structural], ?_⟩
          cases outcome with
          | duplicate _ => rfl
          | malformed _ _ _ _ => rfl
          | buffered _ _ wellFormed _ _ =>
              exact (structural wellFormed.structural).elim
          | refused _ _ wellFormed _ _ _ =>
              exact (structural wellFormed.structural).elim
          | connected _ _ wellFormed _ _ _ =>
              exact (structural wellFormed.structural).elim
      · rw [added] at same
        cases same
  | revalidate _ _ _ _ => cases offers
  | restore _ => cases offers
  | prune _ => cases offers

end ChainOp

/-- The records that a list of calls offers. -/
def offeredRecords
    (backend : Backend)
    (policy : Option DifficultyPolicy)
    (ops : List ChainOp) :
    Set OrphanShare :=
  { record | ∃ op ∈ ops, op.offeredRecord backend policy = some record }

namespace ShareChain

variable {backend : Backend}

/-- Calls that fix how each share is offered offer distinct records. -/
theorem offeredRecords_distinct
    {policy : Option DifficultyPolicy}
    {ops : List ChainOp}
    (distinct : DistinctShareIds backend (ops.filterMap ChainOp.share?))
    (oneOffer :
      ∀ first ∈ ops, ∀ second ∈ ops,
        first.share? = second.share? → first = second) :
    DistinctRecords policy (offeredRecords backend policy ops) := by
  constructor
  · rintro first ⟨firstOp, firstMember, firstOffers⟩
      second ⟨secondOp, secondMember, secondOffers⟩ sameId
    obtain ⟨firstShare, firstKeyed, _⟩ :=
      ChainOp.offeredRecord_eq_some firstOffers
    obtain ⟨secondShare, secondKeyed, _⟩ :=
      ChainOp.offeredRecord_eq_some secondOffers
    have keyed : shareId backend second.share = .ok first.id := by
      rw [secondKeyed]
      exact congrArg _ sameId.symm
    have sameShare :=
      distinct.injective
        first.share (List.mem_filterMap.mpr ⟨_, firstMember, firstShare⟩)
        second.share (List.mem_filterMap.mpr ⟨_, secondMember, secondShare⟩)
        first.id firstKeyed keyed
    have sameOp :=
      oneOffer firstOp firstMember secondOp secondMember
        (by rw [firstShare, secondShare, sameShare])
    rw [← sameOp, firstOffers] at secondOffers
    exact Option.some.inj secondOffers
  · rintro record ⟨op, member, offers⟩ zero
    obtain ⟨share, keyed, _⟩ := ChainOp.offeredRecord_eq_some offers
    have isZero : record.id = 0 := zero
    rw [isZero] at keyed
    exact distinct.nonzero record.share
      (List.mem_filterMap.mpr ⟨op, member, share⟩) keyed

/-- A run that only offers shares accounts for all offered records. -/
theorem runOps_accounts
    {start final : ShareChain}
    {pool : Set OrphanShare}
    {ops : List ChainOp}
    (wellFormed : WellFormed backend start)
    (accounts : Accounts pool start)
    (distinct :
      DistinctRecords start.difficultyPolicy
        (pool ∪ offeredRecords backend start.difficultyPolicy ops))
    (offers : ∀ op ∈ ops, op.share?.isSome = true)
    (ran : runOps backend ops start = .ok () final) :
    Accounts (pool ∪ offeredRecords backend start.difficultyPolicy ops)
      final := by
  induction ops generalizing start pool with
  | nil =>
      cases ran
      simpa [offeredRecords] using accounts
  | cons op rest inductionHypothesis =>
      obtain ⟨⟨⟩, middle, first, later⟩ := bind_eq_ok.mp ran
      obtain ⟨middleWellFormed, samePolicy, _⟩ :=
        ChainOp.run_wellFormed wellFormed first
      have laterOffers : ∀ op ∈ rest, op.share?.isSome = true :=
        fun other member => offers other (List.mem_cons_of_mem op member)
      rcases ChainOp.run_offer wellFormed.sound (offers op (by simp)) first
        with ⟨record, value, offered, outcome⟩ | ⟨offersNone, rfl⟩
      · have poolShape :
            pool ∪ offeredRecords backend start.difficultyPolicy
                (op :: rest) =
              insert record pool ∪
                offeredRecords backend start.difficultyPolicy rest := by
          ext other
          simp [offeredRecords, offered, or_assoc, or_left_comm, eq_comm]
        rw [poolShape] at distinct ⊢
        have middleAccounts :=
          accounts.add wellFormed.sound
            (distinct.subset Set.subset_union_left)
            (ChainOp.offeredRecord_eq_some offered).2.2 outcome
        rw [← samePolicy] at distinct ⊢
        exact inductionHypothesis middleWellFormed middleAccounts distinct
          laterOffers later
      · have poolShape :
            offeredRecords backend middle.difficultyPolicy (op :: rest) =
              offeredRecords backend middle.difficultyPolicy rest := by
          ext other
          simp [offeredRecords, offersNone]
        rw [poolShape] at distinct ⊢
        exact inductionHypothesis wellFormed accounts distinct laterOffers
          later

/-- A fresh chain accounts for the empty pool. -/
theorem Fresh.accounts
    {start : ShareChain}
    (fresh : Fresh backend start) :
    Accounts ∅ start := by
  rcases fresh with rfl | ⟨params, built⟩
  · exact Accounts.empty none none
  · obtain ⟨policy, parameterId, rfl⟩ := ofParameters_eq_ok built
    exact Accounts.empty _ _

/-- Permuted offers to a fresh chain end in the same shares and tip. -/
theorem runOps_perm
    {start final other : ShareChain}
    {ops permuted : List ChainOp}
    (fresh : Fresh backend start)
    (perm : ops.Perm permuted)
    (offers : ∀ op ∈ ops, op.share?.isSome = true)
    (distinct : DistinctShareIds backend (ops.filterMap ChainOp.share?))
    (oneOffer :
      ∀ first ∈ ops, ∀ second ∈ ops,
        first.share? = second.share? → first = second)
    (ran : runOps backend ops start = .ok () final)
    (otherRan : runOps backend permuted start = .ok () other) :
    final.connected = other.connected ∧
      final.orphans = other.orphans ∧
      final.bestTipId = other.bestTipId := by
  have startAccounts := fresh.accounts
  have samePool :
      offeredRecords backend start.difficultyPolicy permuted =
        offeredRecords backend start.difficultyPolicy ops := by
    ext record
    simp only [offeredRecords, Set.mem_ofPred_eq, perm.mem_iff]
  have distinctPool :
      DistinctRecords start.difficultyPolicy
        (∅ ∪ offeredRecords backend start.difficultyPolicy ops) := by
    rw [Set.empty_union]
    exact offeredRecords_distinct distinct oneOffer
  have accounts :=
    runOps_accounts fresh.wellFormed startAccounts distinctPool offers ran
  have otherAccounts :=
    runOps_accounts fresh.wellFormed startAccounts
      (by rw [samePool]; exact distinctPool)
      (fun op member => offers op (perm.mem_iff.mpr member)) otherRan
  rw [samePool] at otherAccounts
  obtain ⟨wellFormed, policy, _⟩ := runOps_wellFormed fresh.wellFormed ran
  obtain ⟨otherWellFormed, otherPolicy, _⟩ :=
    runOps_wellFormed fresh.wellFormed otherRan
  exact accounts.unique wellFormed otherWellFormed
    (otherPolicy.trans policy.symm) (by rw [policy]; exact distinctPool)
    otherAccounts

end ShareChain

/-- A submission: the share, its trusted context and the time it arrives. -/
structure Submission where
  share : Share
  trustedContext : ShareWorkContext
  now : UInt64
  deriving Repr, DecidableEq

/-- The call of `submit_share` that makes a submission. -/
def Submission.op (mode : ProgPowZContextMode) (submission : Submission) :
    ChainOp :=
  .submit submission.share submission.trustedContext submission.now mode

/--
Admission does not depend on the order of arrival, neither for submissions to
a configured chain nor for unchecked insertions into a default one.
-/
theorem admission_orderIndependent
    (backend : Backend) :
    (∀ (params : SidechainParameters) (start final other : ShareChain)
        (submissions permuted : List Submission)
        (mode : ProgPowZContextMode),
      ShareChain.ofParameters backend params = .ok start →
      submissions.Perm permuted →
      DistinctShareIds backend (submissions.map Submission.share) →
      (∀ first ∈ submissions, ∀ second ∈ submissions,
        first.share = second.share → first = second) →
      runOps backend (submissions.map (Submission.op mode)) start =
        .ok () final →
      runOps backend (permuted.map (Submission.op mode)) start =
        .ok () other →
      final.connected = other.connected ∧
        final.orphans = other.orphans ∧
        final.bestTipId = other.bestTipId) ∧
    (∀ (shares permuted : List Share) (final other : ShareChain),
      shares.Perm permuted →
      DistinctShareIds backend shares →
      runOps backend (shares.map ChainOp.addUnchecked) {} = .ok () final →
      runOps backend (permuted.map ChainOp.addUnchecked) {} =
        .ok () other →
      final.connected = other.connected ∧
        final.orphans = other.orphans ∧
        final.bestTipId = other.bestTipId) := by
  constructor
  · intro params start final other submissions permuted mode built perm
      distinct oneContext ran otherRan
    have shares :
        (submissions.map (Submission.op mode)).filterMap ChainOp.share? =
          submissions.map Submission.share := by
      rw [List.filterMap_map]
      exact List.filterMap_eq_map.symm ▸ rfl
    refine ShareChain.runOps_perm (.inr ⟨params, built⟩)
      (perm.map (Submission.op mode)) ?_ (by rwa [shares]) ?_ ran otherRan
    · simp only [List.forall_mem_map]
      exact fun _ _ => rfl
    · simp only [List.forall_mem_map]
      intro first firstMember second secondMember sameShare
      rw [oneContext first firstMember second secondMember
        (Option.some.inj sameShare)]
  · intro shares permuted final other perm distinct ran otherRan
    have offered :
        (shares.map ChainOp.addUnchecked).filterMap ChainOp.share? =
          shares := by
      rw [List.filterMap_map]
      exact List.filterMap_some
    refine ShareChain.runOps_perm (.inl rfl)
      (perm.map ChainOp.addUnchecked) ?_ (by rwa [offered]) ?_ ran otherRan
    · simp only [List.forall_mem_map]
      exact fun _ _ => rfl
    · simp only [List.forall_mem_map]
      intro first _ second _ sameShare
      rw [Option.some.inj sameShare]

/-- A child, its root, the child again, and a share that waits forever. -/
def sampleSubmissions : List Submission :=
  [ ⟨sampleShare 1 1 1 1, sampleContext, 1000⟩
  , ⟨sampleShare 0 0 0 1, sampleContext, 1000⟩
  , ⟨sampleShare 1 1 1 1, sampleContext, 1000⟩
  , ⟨sampleShare 9 3 4 1, sampleContext, 1000⟩ ]

/-- The chain after the sample submissions, in either order. -/
def sampleAdmission (submissions : List Submission) : ShareChain :=
  finalState
    (runOps sampleBackend (submissions.map (Submission.op .light))
      sampleStart)

/-- Both orders of the sample submissions connect two shares and buffer one. -/
theorem sampleSubmissions_orderIndependent :
    (sampleAdmission sampleSubmissions).connected.size = 2 ∧
      (sampleAdmission sampleSubmissions).orphans.size = 1 ∧
      (sampleAdmission sampleSubmissions).connected =
        (sampleAdmission sampleSubmissions.reverse).connected ∧
      (sampleAdmission sampleSubmissions).orphans =
        (sampleAdmission sampleSubmissions.reverse).orphans ∧
      (sampleAdmission sampleSubmissions).bestTipId =
        (sampleAdmission sampleSubmissions.reverse).bestTipId :=
  ⟨by decide +kernel, by decide +kernel,
    (admission_orderIndependent sampleBackend).1 sampleParameters
      sampleStart _ _ sampleSubmissions sampleSubmissions.reverse .light
      sampleStart_built (List.reverse_perm _).symm (by decide +kernel)
      (by decide +kernel) (eq_ok_of_succeeds (by decide +kernel))
      (eq_ok_of_succeeds (by decide +kernel))⟩

end ZanoP2pool
