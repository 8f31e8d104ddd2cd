import ZanoP2pool.ShareChainReplay

namespace ZanoP2pool

open Foundation

/-!
# Replaying the log of a live chain

A node appends every share its chain connected or buffered, and replays the
log into a fresh chain at the next start.  Live admission holds buffered shares
to the expected difficulty when they are promoted; replay does not.  The two
agree exactly when every share that waited for its parent, and could be linked
to it, carries the difficulty expected there.
-/

/-- Submit shares in order and collect those that are persisted. -/
def submitLogged
    (backend : Backend)
    (mode : ProgPowZContextMode) :
    List Submission → ChainM (List Share)
  | [] => return []
  | submission :: rest => do
      let result ← ShareChain.submitShare backend submission.share
        submission.trustedContext submission.now mode
      let later ← submitLogged backend mode rest
      if result.disposition = .connected ∨
          result.disposition = .orphan then
        return submission.share :: later
      else
        return later

namespace ShareChain

variable {backend : Backend}

/-- The record of a submission, if it passes every check on its own. -/
def submittedRecord
    (backend : Backend)
    (policy : Option DifficultyPolicy)
    (mode : ProgPowZContextMode)
    (submission : Submission) :
    Option OrphanShare :=
  vetSubmission backend policy submission.share submission.trustedContext
    submission.now mode

/-- The records of all submissions that pass on their own. -/
def submittedRecords
    (backend : Backend)
    (policy : Option DifficultyPolicy)
    (mode : ProgPowZContextMode)
    (submissions : List Submission) :
    Set OrphanShare :=
  { record |
    ∃ submission ∈ submissions,
      submittedRecord backend policy mode submission = some record }

/-- The record was submitted while its parent was not admitted. -/
def WaitedAt
    (backend : Backend)
    (policy : Option DifficultyPolicy)
    (mode : ProgPowZContextMode)
    (submissions : List Submission)
    (record : OrphanShare) :
    Prop :=
  ∃ before submission after,
    submissions = before ++ submission :: after ∧
    submittedRecord backend policy mode submission = some record ∧
    (recordGenealogy policy).Parentless
      (submittedRecords backend policy mode before) record

/-- The verdict on a record when the difficulty rule is left out. -/
def looseVerdict
    (policy : Option DifficultyPolicy)
    (below : List OrphanShare)
    (record : OrphanShare) :
    Prop :=
  branchVerdict policy (below.map OrphanShare.share) record.share false =
    .ok .none

/--
Every share that waited for its parent, and that links to an admitted branch
of the submissions, carries the difficulty expected on that branch.
-/
def WaitersCarryExpectedDifficulty
    (backend : Backend)
    (policy : Option DifficultyPolicy)
    (mode : ProgPowZContextMode)
    (submissions : List Submission) :
    Prop :=
  ∀ record, WaitedAt backend policy mode submissions record → ∀ below,
    RecordLineage policy
      (submittedRecords backend policy mode submissions) below →
    record.share.parentId = (recordGenealogy policy).tip below →
    branchLinkRejectReason record.share (below.map OrphanShare.share) =
      .none →
    branchWorkFits (record.share :: below.map OrphanShare.share) = true →
      branchDifficultyRejectReason policy (below.map OrphanShare.share)
        record.share = .ok .none

section Submitted

variable {policy : Option DifficultyPolicy} {mode : ProgPowZContextMode}
variable {submissions : List Submission}

theorem submittedRecords_append
    (first second : List Submission) :
    submittedRecords backend policy mode (first ++ second) =
      submittedRecords backend policy mode first ∪
        submittedRecords backend policy mode second := by
  ext record
  simp only [submittedRecords, List.mem_append, Set.mem_ofPred_eq,
    Set.mem_union, or_and_right, exists_or]

/-- One more submission adds its record. -/
theorem submittedRecords_snoc
    (submissions : List Submission)
    {submission : Submission}
    {record : OrphanShare}
    (offered :
      submittedRecord backend policy mode submission = some record) :
    submittedRecords backend policy mode (submissions ++ [submission]) =
      insert record (submittedRecords backend policy mode submissions) := by
  ext other
  simp [submittedRecords, offered, eq_comm, or_comm]

/-- A submission that does not pass on its own adds nothing. -/
theorem submittedRecords_snoc_none
    (submissions : List Submission)
    {submission : Submission}
    (unvetted : submittedRecord backend policy mode submission = none) :
    submittedRecords backend policy mode (submissions ++ [submission]) =
      submittedRecords backend policy mode submissions := by
  ext other
  simp [submittedRecords, unvetted]

/-- The trusted context of a vetted share repeats fields of the share. -/
theorem trustedContext_matches
    {share : Share}
    {trustedContext : ShareWorkContext}
    (accepted : trustedContextRejectReason share trustedContext = .none) :
    trustedContext =
      { zanoHeight := share.zanoHeight
        miningHeaderHash := share.miningHeaderHash
        networkDifficulty := share.networkDifficulty } := by
  unfold trustedContextRejectReason at accepted
  split_ifs at accepted with height header network
  simp only [ne_eq, not_not] at height header network
  rw [height, header, network]

/-- The record of a vetted submission depends on its share alone. -/
theorem submittedRecord_unique
    {first second : Submission}
    {firstRecord secondRecord : OrphanShare}
    (firstOffered :
      submittedRecord backend policy mode first = some firstRecord)
    (secondOffered :
      submittedRecord backend policy mode second = some secondRecord)
    (sameShare : first.share = second.share) :
    firstRecord = secondRecord := by
  obtain ⟨firstId, firstValidation, firstVetted, rfl⟩ :=
    vetSubmission_eq_some.mp firstOffered
  obtain ⟨secondId, secondValidation, secondVetted, rfl⟩ :=
    vetSubmission_eq_some.mp secondOffered
  have firstKeyed := firstVetted.keyed
  have firstValidated := firstVetted.validated
  rw [trustedContext_matches firstVetted.context] at firstValidated
  have secondValidated := secondVetted.validated
  rw [trustedContext_matches secondVetted.context] at secondValidated
  rw [sameShare, secondVetted.keyed] at firstKeyed
  rw [sameShare, secondValidated] at firstValidated
  cases firstKeyed
  cases firstValidated
  rw [sameShare]

/-- Submitted shares with distinct identities give distinct records. -/
theorem submittedRecords_distinct
    (distinct :
      DistinctShareIds backend (submissions.map Submission.share)) :
    DistinctRecords policy
      (submittedRecords backend policy mode submissions) := by
  constructor
  · rintro first ⟨firstSubmission, firstMember, firstOffered⟩
      second ⟨secondSubmission, secondMember, secondOffered⟩ sameId
    obtain ⟨firstShare, firstKeyed, _, _⟩ := vetSubmission_record firstOffered
    obtain ⟨secondShare, secondKeyed, _, _⟩ :=
      vetSubmission_record secondOffered
    have keyed : shareId backend second.share = .ok first.id := by
      rw [secondKeyed]
      exact congrArg _ sameId.symm
    have sameShare :=
      distinct.injective
        first.share (List.mem_map.mpr ⟨_, firstMember, firstShare.symm⟩)
        second.share (List.mem_map.mpr ⟨_, secondMember, secondShare.symm⟩)
        first.id firstKeyed keyed
    rw [firstShare, secondShare] at sameShare
    exact submittedRecord_unique firstOffered secondOffered sameShare
  · rintro record ⟨submission, member, offered⟩ zero
    obtain ⟨share, keyed, _, _⟩ := vetSubmission_record offered
    have isZero : record.id = 0 := zero
    rw [isZero] at keyed
    exact distinct.nonzero record.share
      (List.mem_map.mpr ⟨submission, member, share.symm⟩) keyed

/-- A submitted record holds the shape a replay asks for. -/
theorem submittedRecord_formed
    {submission : Submission}
    {record : OrphanShare}
    (offered :
      submittedRecord backend policy mode submission = some record) :
    record.share = submission.share ∧
      record.enforceSidechainDifficulty = policy.isSome ∧
      WellFormedRecord backend policy (unchecked record) := by
  obtain ⟨id, validation, vetted, rfl⟩ := vetSubmission_eq_some.mp offered
  exact ⟨rfl, rfl, vetted.keyed, vetted.structural⟩

end Submitted

/-- The live chain, its pool and the log after some of the submissions. -/
structure LiveLog
    (backend : Backend)
    (policy : Option DifficultyPolicy)
    (mode : ProgPowZContextMode)
    (submissions done : List Submission)
    (log : List OrphanShare)
    (chain : ShareChain) :
    Prop where
  samePolicy : chain.difficultyPolicy = policy
  wellFormed : WellFormed backend chain
  accounts :
    Accounts (submittedRecords backend policy mode done) chain
  logged :
    (recordGenealogy policy).Logged
      (WaitedAt backend policy mode submissions)
      (submittedRecords backend policy mode done) log

section Live

variable {mode : ProgPowZContextMode} {submissions done : List Submission}
variable {log : List OrphanShare} {chain next : ShareChain}
variable {policy : Option DifficultyPolicy}
variable {submission : Submission} {record : OrphanShare}

/-- Whether the result of a submission is persisted. -/
def persisted (value : AddShareResult) : Prop :=
  value.disposition = .connected ∨ value.disposition = .orphan

instance (value : AddShareResult) : Decidable (persisted value) := by
  unfold persisted
  infer_instance

/-- A record the chain does not know and does not refuse is new. -/
theorem LiveLog.unknown_not_mem
    (live : LiveLog backend policy mode submissions done log chain)
    (fresh : chain.connected[record.id]? = none)
    (notBuffered : chain.orphans[record.id]? = none)
    (notRefused :
      ¬ (recordGenealogy policy).Refused
        (submittedRecords backend policy mode done) record) :
    record ∉ submittedRecords backend policy mode done := by
  intro member
  rcases live.accounts.everyRecord member with
    ⟨entry, found⟩ | waiting | refused
  · rw [fresh] at found
    cases found
  · rw [notBuffered] at waiting
    cases waiting
  · rw [live.samePolicy] at refused
    exact notRefused refused

/-- A vetted submission is logged exactly when its result is persisted. -/
theorem LiveLog.logs
    (live : LiveLog backend policy mode submissions done log chain)
    (shape : ∃ after, submissions = done ++ submission :: after)
    (distinct :
      DistinctRecords policy
        (submittedRecords backend policy mode submissions))
    (offered :
      submittedRecord backend policy mode submission = some record)
    {value : AddShareResult}
    (outcome : AddOutcome backend chain record (.ok value next)) :
    (recordGenealogy policy).Logged
      (WaitedAt backend policy mode submissions)
      (insert record (submittedRecords backend policy mode done))
      (if persisted value then log ++ [record] else log) := by
  have samePolicy := live.samePolicy
  have sound := live.wellFormed.sound
  obtain ⟨after, rfl⟩ := shape
  have snoc := submittedRecords_snoc done offered
  have nextDistinct :
      DistinctRecords policy
        (insert record (submittedRecords backend policy mode done)) := by
    refine distinct.subset ?_
    rw [← snoc]
    rw [show done ++ submission :: after = (done ++ [submission]) ++ after by
      simp, submittedRecords_append _ after]
    exact Set.subset_union_left
  have doneDistinct := nextDistinct.subset (Set.subset_insert record _)
  subst samePolicy
  cases outcome with
  | duplicate known =>
      rw [if_neg (by simp [persisted]),
        Set.insert_eq_of_mem
          (live.accounts.mem_of_known sound nextDistinct known)]
      exact live.logged
  | malformed _ _ named refusal =>
      have structural := (submittedRecord_formed offered).2.2.structural
      exact (refusal (named.symm.trans structural)).elim
  | buffered fresh notBuffered _ nonzero missing =>
      have parentless :
          (recordGenealogy chain.difficultyPolicy).Parentless
            (submittedRecords backend chain.difficultyPolicy mode done)
            record := by
        intro below lineage parent
        cases below with
        | nil => exact nonzero parent
        | cons top deeper =>
            have connected :=
              live.accounts.connected_of_lineage sound
                live.wellFormed.settled doneDistinct lineage
            have sameParent : record.share.parentId = top.id := parent
            rw [sameParent, connected] at missing
            cases missing
      rw [if_pos (.inr rfl)]
      refine .wait live.logged ?_ parentless
        ⟨done, submission, after, rfl, offered, parentless⟩
      exact live.unknown_not_mem fresh notBuffered
        fun ⟨below, lineage, parent, _⟩ => parentless below lineage parent
  | refused _ _ _ isBranch judged refusal =>
      rw [if_neg (by simp [persisted])]
      exact .refuse live.logged
        (live.accounts.refused_of_branch doneDistinct isBranch (by
          rw [judged]
          simpa using refusal))
  | connected fresh notBuffered _ isBranch judged _ =>
      obtain ⟨below, lineage, sameTip, rfl⟩ :=
        live.accounts.lineage_of_branch doneDistinct isBranch
      have admitted :
          (recordGenealogy chain.difficultyPolicy).Admitted
            (submittedRecords backend chain.difficultyPolicy mode done)
            record :=
        ⟨below, lineage, sameTip.symm, judged⟩
      rw [if_pos (.inl rfl)]
      refine .enter live.logged ?_ admitted
      exact live.unknown_not_mem fresh notBuffered
        fun refused => refused.not_admitted doneDistinct admitted

/-- One submission keeps the relation between chain, pool and log. -/
theorem LiveLog.submit
    (live : LiveLog backend policy mode submissions done log chain)
    (shape : ∃ after, submissions = done ++ submission :: after)
    (distinct :
      DistinctRecords policy
        (submittedRecords backend policy mode submissions))
    {value : AddShareResult}
    (submitted :
      submitShare backend submission.share submission.trustedContext
        submission.now mode chain = .ok value next) :
    ∃ more,
      LiveLog backend policy mode submissions (done ++ [submission])
        (log ++ more) next ∧
      more.map OrphanShare.share =
        if persisted value then [submission.share] else [] := by
  have samePolicy := live.samePolicy
  have sound := live.wellFormed.sound
  have ran :
      (submission.op mode).run backend chain = .ok () next :=
    bind_of_ok submitted
  obtain ⟨nextFormed, nextPolicy, _⟩ :=
    ChainOp.run_wellFormed live.wellFormed ran
  rw [samePolicy] at nextPolicy
  rcases submitShare_outcome sound.standing submission.share submission.trustedContext
      submission.now mode with
    ⟨record, offered, outcome⟩ | ⟨unvetted, unchanged⟩
  · rw [submitted] at outcome
    rw [samePolicy] at offered
    have logged := live.logs shape distinct offered outcome
    have pool := submittedRecords_snoc done offered
    have nextDistinct :
        DistinctRecords chain.difficultyPolicy
          (insert record (submittedRecords backend policy mode done)) := by
      obtain ⟨after, rfl⟩ := shape
      rw [samePolicy]
      refine distinct.subset ?_
      rw [← pool, show done ++ submission :: after =
        (done ++ [submission]) ++ after by simp,
        submittedRecords_append _ after]
      exact Set.subset_union_left
    have structural :
        structuralRejectReason chain.difficultyPolicy record.share =
          .none := by
      rw [samePolicy]
      exact (submittedRecord_formed offered).2.2.structural
    have accounts :=
      live.accounts.add sound nextDistinct structural outcome
    rw [← pool] at accounts logged
    have sameShare := (submittedRecord_formed offered).1
    by_cases kept : persisted value
    · rw [if_pos kept] at logged ⊢
      exact ⟨[record], ⟨nextPolicy, nextFormed, accounts, logged⟩, by
        simp [sameShare]⟩
    · rw [if_neg kept] at logged ⊢
      exact ⟨[], ⟨nextPolicy, nextFormed, accounts, by simpa using logged⟩,
        rfl⟩
  · rw [submitted] at unchanged
    rw [samePolicy] at unvetted
    have pool := submittedRecords_snoc_none done unvetted
    rcases unchanged with ⟨thrown, same⟩ | ⟨other, same, dropped⟩
    · cases same
    · cases same
      have notKept : ¬ persisted value := by
        rcases dropped with disposition | disposition <;>
          simp [persisted, disposition]
      rw [if_neg notKept]
      refine ⟨[], ⟨samePolicy, live.wellFormed, ?_, ?_⟩, rfl⟩
      · rw [pool]
        exact live.accounts
      · rw [pool, List.append_nil]
        exact live.logged

/-- A run of submissions logs exactly the shares it is said to persist. -/
theorem submitLogged_live
    {rest : List Submission}
    (shape : ∃ after, submissions = (done ++ rest) ++ after)
    (live : LiveLog backend policy mode submissions done log chain)
    (distinct :
      DistinctRecords policy
        (submittedRecords backend policy mode submissions))
    {shares : List Share}
    {final : ShareChain}
    (submitted :
      submitLogged backend mode rest chain = .ok shares final) :
    ∃ more,
      LiveLog backend policy mode submissions (done ++ rest) (log ++ more)
        final ∧
      more.map OrphanShare.share = shares := by
  induction rest generalizing done log chain shares final with
  | nil =>
      cases submitted
      exact ⟨[], by simpa using live, rfl⟩
  | cons submission rest inductionHypothesis =>
      obtain ⟨after, rfl⟩ := shape
      obtain ⟨value, middle, first, continued⟩ := bind_eq_ok.mp submitted
      obtain ⟨later, reached, laterRan, finished⟩ := bind_eq_ok.mp continued
      obtain ⟨more, middleLive, moreShares⟩ :=
        live.submit ⟨rest ++ after, by simp⟩ distinct first
      obtain ⟨further, finalLive, furtherShares⟩ :=
        inductionHypothesis ⟨after, by simp⟩ middleLive laterRan
      have finishes :
          reached = final ∧
            shares = (if persisted value then [submission.share] else []) ++
              later := by
        by_cases kept : persisted value
        · have disposition : value.disposition = .connected ∨
              value.disposition = .orphan := kept
          rw [if_pos disposition] at finished
          cases finished
          exact ⟨rfl, by simp [kept]⟩
        · have disposition : ¬ (value.disposition = .connected ∨
              value.disposition = .orphan) := kept
          rw [if_neg disposition] at finished
          cases finished
          exact ⟨rfl, by simp [kept]⟩
      obtain ⟨rfl, rfl⟩ := finishes
      refine ⟨more ++ further, ?_, ?_⟩
      · simpa using finalLive
      · rw [List.map_append, moreShares, furtherShares]

/-- A run over two lists is a run over the first, then over the second. -/
theorem submitLogged_append
    {first second : List Submission}
    {shares : List Share}
    {final : ShareChain}
    (submitted :
      submitLogged backend mode (first ++ second) chain =
        .ok shares final) :
    ∃ firstShares middle secondShares,
      submitLogged backend mode first chain = .ok firstShares middle ∧
      submitLogged backend mode second middle = .ok secondShares final ∧
      shares = firstShares ++ secondShares := by
  induction first generalizing chain shares with
  | nil => exact ⟨[], chain, shares, rfl, submitted, rfl⟩
  | cons submission rest inductionHypothesis =>
      obtain ⟨value, reached, ran, continued⟩ := bind_eq_ok.mp submitted
      obtain ⟨later, ended, laterRan, finished⟩ := bind_eq_ok.mp continued
      have sameEnd : ended = final := by
        split at finished <;> cases finished <;> rfl
      obtain ⟨firstShares, middle, secondShares, firstRan, secondRan, rfl⟩ :=
        inductionHypothesis (sameEnd ▸ laterRan)
      split at finished
      · rename_i kept
        cases finished
        refine ⟨submission.share :: firstShares, middle, secondShares, ?_,
          secondRan, rfl⟩
        rw [submitLogged, bind_of_ok ran, bind_of_ok firstRan, if_pos kept]
        rfl
      · rename_i dropped
        cases finished
        refine ⟨firstShares, middle, secondShares, ?_, secondRan, rfl⟩
        rw [submitLogged, bind_of_ok ran, bind_of_ok firstRan,
          if_neg dropped]
        rfl

/-- A fresh chain has an empty log. -/
theorem Fresh.liveLog
    {start : ShareChain}
    (fresh : Fresh backend start)
    (mode : ProgPowZContextMode)
    (submissions : List Submission) :
    LiveLog backend start.difficultyPolicy mode submissions [] [] start := by
  have nothing :
      submittedRecords backend start.difficultyPolicy mode [] = ∅ := by
    simp [submittedRecords]
  refine ⟨rfl, fresh.wellFormed, ?_, ?_⟩
  · rw [nothing]
    exact fresh.accounts
  · rw [nothing]
    exact .empty

/-- A record that waited for its parent is in the log of the run. -/
theorem waited_logged
    {start final : ShareChain}
    (fresh : Fresh backend start)
    (distinct :
      DistinctRecords start.difficultyPolicy
        (submittedRecords backend start.difficultyPolicy mode submissions))
    {shares : List Share}
    (submitted :
      submitLogged backend mode submissions start = .ok shares final)
    (waited :
      WaitedAt backend start.difficultyPolicy mode submissions record) :
    ∃ log,
      LiveLog backend start.difficultyPolicy mode submissions submissions log
        final ∧
      log.map OrphanShare.share = shares ∧
      record ∈ log := by
  obtain ⟨before, submission, after, shape, offered, parentless⟩ := waited
  have halves : submissions = ((before ++ [submission]) ++ after) := by
    simp [shape]
  have start_live := fresh.liveLog mode submissions
  rw [halves] at submitted
  obtain ⟨firstShares, middle, secondShares, firstRan, secondRan, rfl⟩ :=
    submitLogged_append submitted
  obtain ⟨first, middleLive, sameFirst⟩ :=
    submitLogged_live ⟨after, by simpa using halves⟩ start_live distinct
      firstRan
  obtain ⟨second, finalLive, sameSecond⟩ :=
    submitLogged_live ⟨[], by simpa using halves⟩ middleLive distinct
      secondRan
  simp only [List.nil_append] at middleLive finalLive
  rw [← halves] at finalLive
  refine ⟨first ++ second, finalLive, ?_, ?_⟩
  · rw [List.map_append, sameFirst, sameSecond]
  · have logged := middleLive.logged
    rw [submittedRecords_snoc before offered] at logged
    have stillParentless := parentless.insert
    refine List.mem_append_left _ ((logged.logged_or_refused record
      (Set.mem_insert record _)).resolve_right ?_)
    rintro ⟨below, lineage, parent, _⟩
    exact stillParentless below lineage parent

end Live

section Agreement

variable {policy : Option DifficultyPolicy} {mode : ProgPowZContextMode}
variable {submissions : List Submission} {log : List OrphanShare}
variable {chain replayed : ShareChain}

/-- Dropping the difficulty rule turns records into replayed records. -/
theorem carries_unchecked
    (policy : Option DifficultyPolicy) :
    ((recordGenealogy policy).relaxed (looseVerdict policy)).Carries
      (recordGenealogy policy) unchecked where
  idOf := fun _ => rfl
  parentOf := fun _ => rfl
  root := rfl
  accepts := by
    intro below record
    change
      branchVerdict policy ((below.map unchecked).map OrphanShare.share)
        record.share false = .ok .none ↔ looseVerdict policy below record
    rw [List.map_map]
    rfl

/-- What the strict rule accepts the weaker rule accepts. -/
theorem looseVerdict_of_accepts
    (below : List OrphanShare)
    (record : OrphanShare)
    (accepted : (recordGenealogy policy).accepts below record) :
    looseVerdict policy below record := by
  obtain ⟨linked, _, fits⟩ := branchVerdict_eq_none.mp accepted
  exact branchVerdict_eq_none.mpr ⟨linked, by simp, fits⟩

/-- The condition on waiting shares in terms of the two rules. -/
theorem waitersComply_iff :
    WaitersCarryExpectedDifficulty backend policy mode submissions ↔
      Genealogy.Logged.WaitersComply (recordGenealogy policy)
        (WaitedAt backend policy mode submissions) (looseVerdict policy)
        (submittedRecords backend policy mode submissions) := by
  constructor
  · intro expected record waited below lineage parent loose
    obtain ⟨linked, _, fits⟩ := branchVerdict_eq_none.mp loose
    exact branchVerdict_eq_none.mpr ⟨linked,
      fun _ => expected record waited below lineage parent linked fits, fits⟩
  · intro comply record waited below lineage parent linked fits
    have accepted :=
      comply record waited below lineage parent
        (branchVerdict_eq_none.mpr ⟨linked, by simp, fits⟩)
    obtain ⟨_, _, _, _, offered, _⟩ := waited
    have enforced := (submittedRecord_formed offered).2.1
    cases policy with
    | none => rfl
    | some policy =>
        exact (branchVerdict_eq_none.mp accepted).2.1 (by rw [enforced]; rfl)

/-- Distinct submitted records are distinct when they are replayed. -/
theorem LiveLog.replayDistinct
    (live : LiveLog backend policy mode submissions submissions log chain)
    (distinct :
      DistinctRecords policy
        (submittedRecords backend policy mode submissions)) :
    DistinctRecords policy (replayPool log) := by
  constructor
  · rintro _ ⟨first, firstMember, rfl⟩ _ ⟨second, secondMember, rfl⟩ sameId
    rw [distinct.injective (live.logged.mem first firstMember)
      (live.logged.mem second secondMember) sameId]
  · rintro _ ⟨record, member, rfl⟩ zero
    exact distinct.notRoot (live.logged.mem record member) zero

/-- Logged records can be replayed on their own. -/
theorem LiveLog.replayFormed
    (live : LiveLog backend policy mode submissions submissions log chain) :
    ∀ record ∈ log, WellFormedRecord backend policy (unchecked record) := by
  intro record member
  obtain ⟨submission, _, offered⟩ := live.logged.mem record member
  exact (submittedRecord_formed offered).2.2

/-- Logged shares have identities. -/
theorem LiveLog.replayKeyed
    (live : LiveLog backend policy mode submissions submissions log chain) :
    ∀ share ∈ log.map OrphanShare.share,
      ∃ id, shareId backend share = .ok id := by
  rw [List.forall_mem_map]
  exact fun record member => ⟨_, (live.replayFormed record member).keyed⟩

/-- Under the condition both rules admit the same lineages. -/
theorem LiveLog.replayLineage_iff
    (live : LiveLog backend policy mode submissions submissions log chain)
    (distinct :
      DistinctRecords policy
        (submittedRecords backend policy mode submissions))
    (expected :
      WaitersCarryExpectedDifficulty backend policy mode submissions)
    (carried : List OrphanShare) :
    RecordLineage policy (replayPool log) carried ↔
      ∃ path,
        carried = path.map unchecked ∧
        RecordLineage policy
          (submittedRecords backend policy mode submissions) path := by
  constructor
  · intro lineage
    obtain ⟨path, shape, relaxed⟩ :=
      (carries_unchecked policy).lineage_of_map lineage
    exact ⟨path, shape,
      live.logged.restrict distinct (waitersComply_iff.mp expected) relaxed⟩
  · rintro ⟨path, rfl, lineage⟩
    exact (carries_unchecked policy).lineage_map
      (live.logged.relax looseVerdict_of_accepts distinct lineage)

/-- A replayed record is placed as the live one. -/
theorem placed_unchecked
    (record : OrphanShare)
    (below : List OrphanShare) :
    placed (lineageEntry (unchecked record) (below.map unchecked)) =
      placed (lineageEntry record below) := by
  have sameShares :
      (below.map unchecked).map OrphanShare.share =
        below.map OrphanShare.share := by
    rw [List.map_map]
    rfl
  simp only [placed, lineageEntry, branchEntry, sameShares]
  rfl

/-- Under the condition replay connects and buffers the same shares. -/
theorem LiveLog.replay_agrees
    (live : LiveLog backend policy mode submissions submissions log chain)
    (distinct :
      DistinctRecords policy
        (submittedRecords backend policy mode submissions))
    (expected :
      WaitersCarryExpectedDifficulty backend policy mode submissions)
    (replaying : Replaying backend (replayPool log) replayed)
    (replayedPolicy : replayed.difficultyPolicy = policy) :
    SameConnected chain replayed ∧
      ∀ id, replayed.isOrphan id = chain.isOrphan id := by
  obtain rfl := live.samePolicy
  have lineages := live.replayLineage_iff distinct expected
  have replayDistinct := live.replayDistinct distinct
  constructor
  · intro id
    apply Option.ext
    intro place
    rw [Option.map_eq_some_iff, Option.map_eq_some_iff]
    constructor
    · rintro ⟨entry, found, rfl⟩
      obtain ⟨carried, below, lineage, rfl, rfl⟩ :=
        replaying.accounts.connected found
      rw [replayedPolicy] at lineage
      obtain ⟨path, shape, liveLineage⟩ := (lineages _).mp lineage
      cases path with
      | nil => cases shape
      | cons record rest =>
          obtain ⟨rfl, rfl⟩ := List.cons.inj shape
          have connected :=
            live.accounts.connected_of_lineage live.wellFormed.sound
              live.wellFormed.settled distinct liveLineage
          exact ⟨_, connected, (placed_unchecked record rest).symm⟩
    · rintro ⟨entry, found, rfl⟩
      obtain ⟨record, below, lineage, rfl, rfl⟩ := live.accounts.connected found
      have carried := (lineages _).mpr ⟨record :: below, rfl, lineage⟩
      rw [← replayedPolicy] at carried
      have connected :=
        replaying.accounts.connected_of_lineage replaying.wellFormed.sound
          replaying.wellFormed.settled
          (by rw [replayedPolicy]; exact replayDistinct) carried
      exact ⟨_, connected, placed_unchecked record below⟩
  · intro id
    rw [Bool.eq_iff_iff, isOrphan, isOrphan, contains_iff_getElem?,
      contains_iff_getElem?]
    constructor
    · rintro ⟨orphan, found⟩
      obtain ⟨member, sameId, parentless⟩ :=
        (replaying.accounts.orphans_iff replaying.wellFormed.sound
          replaying.wellFormed.settled
          (by rw [replayedPolicy]; exact replayDistinct)).mp found
      obtain ⟨record, inLog, rfl⟩ := member
      rw [replayedPolicy] at parentless
      refine ⟨record, (live.accounts.orphans_iff live.wellFormed.sound
        live.wellFormed.settled distinct).mpr
        ⟨live.logged.mem record inLog, sameId, ?_⟩⟩
      intro below lineage parent
      have carried := (lineages _).mpr ⟨below, rfl, lineage⟩
      refine parentless _ carried ?_
      rw [(carries_unchecked _).tip_map]
      exact parent
    · rintro ⟨record, found⟩
      obtain ⟨member, sameId, parentless⟩ :=
        (live.accounts.orphans_iff live.wellFormed.sound
          live.wellFormed.settled
          distinct).mp found
      have inLog : record ∈ log :=
        (live.logged.logged_or_refused record member).resolve_right
          fun ⟨below, lineage, parent, _⟩ => parentless below lineage parent
      refine ⟨unchecked record,
        (replaying.accounts.orphans_iff replaying.wellFormed.sound
          replaying.wellFormed.settled
          (by rw [replayedPolicy]; exact replayDistinct)).mpr
          ⟨⟨record, inLog, rfl⟩, sameId, ?_⟩⟩
      rw [replayedPolicy]
      intro carried lineage parent
      obtain ⟨path, rfl, liveLineage⟩ := (lineages _).mp lineage
      rw [(carries_unchecked _).tip_map] at parent
      exact parentless path liveLineage parent

/-- Under the condition every logged share is replayed. -/
theorem LiveLog.replays
    (live : LiveLog backend policy mode submissions submissions log chain)
    (distinct :
      DistinctRecords policy
        (submittedRecords backend policy mode submissions))
    (expected :
      WaitersCarryExpectedDifficulty backend policy mode submissions)
    {start : ShareChain}
    (fresh : Fresh backend start)
    (startPolicy : start.difficultyPolicy = policy) :
    ∃ replayed,
      ShareStore.replayShares backend (log.map OrphanShare.share) start =
        .ok () replayed := by
  have nodup : (log.map unchecked).Nodup := by
    refine List.Nodup.map_on ?_ live.logged.nodup
    intro first firstMember second secondMember same
    have sameId := congrArg OrphanShare.id same
    exact distinct.injective (live.logged.mem first firstMember)
      (live.logged.mem second secondMember) sameId
  refine replayShares_ok (live.replayFormed) (live.replayDistinct distinct)
    nodup ?_ (List.nil_append log).symm startPolicy fresh.replaying
  intro before record after shape refused
  refine live.logged.replayed_not_refused looseVerdict_of_accepts distinct
    (waitersComply_iff.mp expected) shape ?_
  exact (carries_unchecked policy).refused_map.mp refused

/-- A waiting share that replay would admit shows that the runs differ. -/
theorem LiveLog.replay_connects
    (live : LiveLog backend policy mode submissions submissions log chain)
    (distinct :
      DistinctRecords policy
        (submittedRecords backend policy mode submissions))
    {record : OrphanShare}
    (inLog : record ∈ log)
    {below : List OrphanShare}
    (lineage :
      RecordLineage policy
        (submittedRecords backend policy mode submissions) below)
    (parent :
      record.share.parentId = (recordGenealogy policy).tip below)
    (loose : looseVerdict policy below record)
    (rejected : ¬ (recordGenealogy policy).accepts below record)
    (replaying : Replaying backend (replayPool log) replayed)
    (replayedPolicy : replayed.difficultyPolicy = policy) :
    (∃ entry, replayed.connected[record.id]? = some entry) ∧
      chain.connected[record.id]? = none := by
  obtain rfl := live.samePolicy
  constructor
  · have relaxed :
        ((recordGenealogy chain.difficultyPolicy).relaxed
          (looseVerdict chain.difficultyPolicy)).Lineage
            (Genealogy.Logged.logPool log) (record :: below) :=
      .extend (live.logged.relax looseVerdict_of_accepts distinct lineage)
        inLog parent loose
    have carried := (carries_unchecked _).lineage_map relaxed
    rw [← replayedPolicy] at carried
    have connected :=
      replaying.accounts.connected_of_lineage replaying.wellFormed.sound
        replaying.wellFormed.settled
        (by rw [replayedPolicy]; exact live.replayDistinct distinct) carried
    exact ⟨_, connected⟩
  · rw [Option.eq_none_iff_forall_ne_some]
    intro entry found
    obtain ⟨other, otherBelow, otherLineage, sameId, _⟩ :=
      live.accounts.connected found
    cases otherLineage with
    | extend otherBelowLineage member otherParent accepted =>
        obtain rfl :=
          distinct.injective member (live.logged.mem record inLog) sameId
        have sameBelow : otherBelow = below :=
          otherBelowLineage.unique distinct lineage
            (otherParent.symm.trans parent)
        exact rejected (sameBelow ▸ accepted)

end Agreement

end ShareChain

/-- What a restart has to reproduce of a chain. -/
structure SamePersisted (live replayed : ShareChain) : Prop where
  connected :
    ∀ id : ShareId,
      (replayed.connected[id]?).map ConnectedShare.cumulativeWork =
        (live.connected[id]?).map ConnectedShare.cumulativeWork
  orphans : ∀ id, replayed.isOrphan id = live.isOrphan id
  bestTip : replayed.bestTipId = live.bestTipId

/--
Appending a log to a store without a file and loading it into a fresh chain
succeeds and reproduces the live chain.
-/
def ReplayAgrees
    (backend : Backend)
    (store : ShareStore)
    (start : ShareChain)
    (log : List Share)
    (live : ShareChain) :
    Prop :=
  ∃ filled loaded replayed,
    ShareStore.appendAll backend log store = .ok () filled ∧
    ShareStore.loadInto backend filled true start = .ok loaded replayed ∧
    SamePersisted live replayed

/-- Loading a log that appends have written is replaying its shares. -/
theorem ShareStore.loadInto_iff
    {backend : Backend}
    {store : ShareStore}
    {shares : List Share}
    (holds : ShareStore.HoldsOrAbsent backend store shares)
    {repair : Bool}
    {chain final : ShareChain} :
    (∃ loaded,
      ShareStore.loadInto backend store repair chain = .ok loaded final) ↔
      ShareStore.replayShares backend shares chain = .ok () final := by
  rcases holds with ⟨absent, rfl⟩ | holds
  · rw [ShareStore.loadInto_absent absent]
    constructor
    · rintro ⟨loaded, finished⟩
      cases finished
      rfl
    · intro replayed
      cases replayed
      exact ⟨_, rfl⟩
  · rw [ShareStore.loadInto_eq holds]
    cases ShareStore.replayShares backend shares chain with
    | error thrown reached => simp
    | ok value reached => simp

/--
Replay of the log agrees with the live chain exactly when every share that
waited for its parent, and links to it, carries the expected difficulty.
-/
theorem replayAgrees_iff
    {backend : Backend}
    {params : SidechainParameters}
    {sidechain : SidechainId}
    {path : String}
    {store : ShareStore}
    {start live : ShareChain}
    {mode : ProgPowZContextMode}
    {submissions : List Submission}
    {log : List Share}
    (built : ShareChain.ofParameters backend params = .ok start)
    (created : ShareStore.create path sidechain none = .ok store)
    (distinct :
      DistinctShareIds backend (submissions.map Submission.share))
    (submitted :
      submitLogged backend mode submissions start = .ok log live) :
    ReplayAgrees backend store start log live ↔
      ShareChain.WaitersCarryExpectedDifficulty backend
        start.difficultyPolicy mode submissions := by
  have fresh : ShareChain.Fresh backend start := .inr ⟨params, built⟩
  have distinctRecords :
      ShareChain.DistinctRecords start.difficultyPolicy
        (ShareChain.submittedRecords backend start.difficultyPolicy mode
          submissions) :=
    ShareChain.submittedRecords_distinct distinct
  have empty : ShareStore.HoldsOrAbsent backend store [] := by
    unfold ShareStore.create at created
    split_ifs at created
    cases created
    exact .inl ⟨rfl, rfl⟩
  constructor
  · rintro ⟨filled, loaded, replayed, appended, loads, same⟩
    intro record waited below lineage parent linked fits
    by_contra unexpected
    obtain ⟨records, liveLog, rfl, inLog⟩ :=
      ShareChain.waited_logged fresh distinctRecords submitted waited
    obtain ⟨_, _, _, _, offered, _⟩ := waited
    obtain ⟨other, otherAppended, _, holds⟩ :=
      ShareStore.appendAll_holds empty (liveLog.replayKeyed)
    rw [appended] at otherAppended
    cases otherAppended
    rw [List.nil_append] at holds
    have replays :=
      (ShareStore.loadInto_iff holds).mp ⟨loaded, loads⟩
    obtain ⟨replayedPolicy, replaying⟩ :=
      ShareChain.replayShares_accounts liveLog.replayFormed
        (liveLog.replayDistinct distinctRecords)
        (List.nil_append records).symm rfl fresh.replaying replays
    have enforced := (ShareChain.submittedRecord_formed offered).2.1
    obtain ⟨⟨entry, connected⟩, absent⟩ :=
      liveLog.replay_connects distinctRecords inLog lineage parent
        (branchVerdict_eq_none.mpr ⟨linked, by simp, fits⟩)
        (fun accepted => by
          obtain ⟨policy, parameterId, rfl⟩ :=
            ShareChain.ofParameters_eq_ok built
          exact unexpected
            ((branchVerdict_eq_none.mp accepted).2.1
              (by rw [enforced]; rfl)))
        replaying replayedPolicy
    have contradicts := same.connected record.id
    rw [connected, absent] at contradicts
    simp at contradicts
  · intro expected
    obtain ⟨records, liveLog, rfl⟩ :=
      ShareChain.submitLogged_live ⟨[], by simp⟩
        (fresh.liveLog mode submissions) distinctRecords submitted
    simp only [List.nil_append] at liveLog
    obtain ⟨filled, appended, _, holds⟩ :=
      ShareStore.appendAll_holds empty (liveLog.replayKeyed)
    rw [List.nil_append] at holds
    obtain ⟨replayed, replays⟩ :=
      liveLog.replays distinctRecords expected fresh rfl
    obtain ⟨replayedPolicy, replaying⟩ :=
      ShareChain.replayShares_accounts liveLog.replayFormed
        (liveLog.replayDistinct distinctRecords)
        (List.nil_append records).symm rfl fresh.replaying replays
    obtain ⟨sameConnected, sameOrphans⟩ :=
      liveLog.replay_agrees distinctRecords expected replaying replayedPolicy
    obtain ⟨loaded, loads⟩ := (ShareStore.loadInto_iff holds).mpr replays
    refine ⟨filled, loaded, replayed, appended, loads, ?_, sameOrphans,
      sameConnected.bestTip liveLog.wellFormed.sound
        replaying.wellFormed.sound⟩
    intro id
    have placed := congrArg (Option.map Prod.snd) (sameConnected id)
    simp only [Option.map_map] at placed
    exact placed

/-- The sample backend with a hash that meets every difficulty. -/
def easyBackend : Backend :=
  { sampleBackend with
    progpowzHash := fun _ _ _ _ => .ok { finalHash := 0, mixHash := 0 } }

def sampleStore : ShareStore where
  path := "shares"
  expectedSidechainId := 1
  file := none

theorem easyStart_built :
    ShareChain.ofParameters easyBackend sampleParameters =
      .ok sampleStart := by
  rfl

theorem sampleStore_created :
    ShareStore.create "shares" 1 none = .ok sampleStore := by
  rfl

/-- The chain after submissions, and the shares they persisted. -/
def sampleRun (submissions : List Submission) :
    EStateM.Result Exception ShareChain (List Share) :=
  submitLogged easyBackend .light submissions sampleStart

/-- A child arrives before its root; both carry the expected difficulty. -/
def sampleWaiter : List Submission :=
  [ ⟨sampleShare 1 1 1 1, sampleContext, 1000⟩
  , ⟨sampleShare 0 0 0 1, sampleContext, 1000⟩ ]

/-- A compliant waiting share: both sides of the equivalence are at hand. -/
theorem sampleWaiter_replayAgrees :
    (finalState (sampleRun sampleWaiter)).bestTipId = some 2 ∧
      (ReplayAgrees easyBackend sampleStore sampleStart
          (sampleWaiter.map Submission.share)
          (finalState (sampleRun sampleWaiter)) ↔
        ShareChain.WaitersCarryExpectedDifficulty easyBackend
          sampleStart.difficultyPolicy .light sampleWaiter) :=
  ⟨by decide +kernel,
    replayAgrees_iff easyStart_built sampleStore_created
      (by decide +kernel) (eq_ok_of_returned (by decide +kernel))⟩

/-- The waiting child carries difficulty two where one is expected. -/
def sampleDroppedWaiter : List Submission :=
  [ ⟨sampleShare 1 1 1 2, sampleContext, 1000⟩
  , ⟨sampleShare 0 0 0 1, sampleContext, 1000⟩ ]

/--
The live chain drops the child when its root arrives, but both shares were
logged, and replay connects the child.
-/
theorem sampleDroppedWaiter_replayDiffers :
    DistinctShareIds easyBackend
        (sampleDroppedWaiter.map Submission.share) ∧
      sampleRun sampleDroppedWaiter =
        .ok (sampleDroppedWaiter.map Submission.share)
          (finalState (sampleRun sampleDroppedWaiter)) ∧
      ¬ ReplayAgrees easyBackend sampleStore sampleStart
        (sampleDroppedWaiter.map Submission.share)
        (finalState (sampleRun sampleDroppedWaiter)) := by
  refine ⟨by decide +kernel, eq_ok_of_returned (by decide +kernel), ?_⟩
  rintro ⟨filled, loaded, replayed, appended, loads, same⟩
  have sameFilled := congrArg finalState appended
  rw [finalState_ok] at sameFilled
  have sameReplayed := congrArg finalState loads
  rw [finalState_ok, ← sameFilled] at sameReplayed
  have sameTip := same.bestTip
  rw [← sameReplayed] at sameTip
  revert sameTip
  decide +kernel

end ZanoP2pool
