import ZanoP2pool.Foundation.LineageLog
import ZanoP2pool.ShareChainOrderFree
import ZanoP2pool.ShareChainPromotion
import ZanoP2pool.ShareStoreLog

namespace ZanoP2pool

open Foundation

/-!
# Replaying a list of shares

Replay inserts shares without difficulty checks, so no verdict can throw and a
promotion always finishes.  A list of distinct shares is replayed without an
exception exactly when none of them is refused by the shares before it.
-/

namespace ShareChain

variable {backend : Backend} {chain : ShareChain}

/-- Without the difficulty rule every verdict can be computed. -/
theorem branchVerdict_unchecked
    (policy : Option DifficultyPolicy)
    (branch : List Share)
    (share : Share) :
    ∃ reason, branchVerdict policy branch share false = .ok reason := by
  by_cases linked : branchLinkRejectReason share branch = .none
  · cases fits : branchWorkFits (share :: branch) with
    | true => exact ⟨.none, branchVerdict_eq_none.mpr ⟨linked, by simp, fits⟩⟩
    | false =>
        refine ⟨.cumulativeWorkOverflow, ?_⟩
        simp [branchVerdict, linked, fits, bind, Except.bind, pure,
          Except.pure]
  · exact ⟨_, branchVerdict_of_link linked⟩

/-- No orphan is held to the difficulty rule. -/
def Unchecked (chain : ShareChain) : Prop :=
  ∀ ⦃id : ShareId⦄ ⦃orphan : OrphanShare⦄,
    chain.orphans[id]? = some orphan →
      orphan.enforceSidechainDifficulty = false

/-- A chain between or within insertions that check no difficulty. -/
structure DrainingUnchecked
    (backend : Backend)
    (chain : ShareChain) :
    Prop where
  sound : Sound backend chain
  unchecked : Unchecked chain
  listedByParent : ListedByParent chain

theorem Drains.unchecked
    {next : ShareChain}
    (drains : Drains chain next)
    (unchecked : Unchecked chain) :
    Unchecked next :=
  fun _ _ found => unchecked (drains.orphans found)

/-- Unchecked orphans can always be judged. -/
theorem judges_drainingUnchecked
    (backend : Backend) :
    Judges backend (DrainingUnchecked backend) where
  sound := fun _ draining => draining.sound
  listedByParent := fun _ draining => draining.listedByParent
  step := fun _ _ draining growth =>
    ⟨growth.sound draining.sound,
      growth.drains.unchecked draining.unchecked,
      growth.drains.listedByParent draining.listedByParent⟩
  judged := by
    intro chain id orphan branch draining found _
    rw [draining.unchecked found]
    exact branchVerdict_unchecked chain.difficultyPolicy branch orphan.share

/-- An unchecked record is inserted without an exception. -/
theorem AddOutcome.unchecked
    (sound : Sound backend chain)
    (settled : Settled chain)
    (unchecked : Unchecked chain)
    {record : OrphanShare}
    (recordUnchecked : record.enforceSidechainDifficulty = false)
    {result : EStateM.Result Exception ShareChain AddShareResult}
    (outcome : AddOutcome backend chain record result) :
    ∃ value next, result = .ok value next ∧ Unchecked next := by
  cases outcome with
  | duplicate _ => exact ⟨_, _, rfl, unchecked⟩
  | malformed _ _ _ _ => exact ⟨_, _, rfl, unchecked⟩
  | buffered _ notBuffered _ _ _ =>
      refine ⟨_, _, rfl, ?_⟩
      intro id orphan found
      rcases (getElem?_insert_fresh notBuffered _).mp found with
        ⟨_, rfl⟩ | present
      · exact recordUnchecked
      · exact unchecked present
  | @threw branch thrown _ judged =>
      obtain ⟨reason, computed⟩ :=
        branchVerdict_unchecked chain.difficultyPolicy branch record.share
      rw [recordUnchecked, computed] at judged
      cases judged
  | refused _ _ _ _ _ _ => exact ⟨_, _, rfl, unchecked⟩
  | @connected branch _ final fresh _ wellFormed isBranch judged promoted =>
      have growth : Growth backend (some record) chain
          (chain.attach branch record) :=
        .attach (.inl rfl) wellFormed fresh isBranch judged
      have promotion :
          Growths backend none (chain.attach branch record)
            (finalState
              (promoteChildren record.id (chain.attach branch record))) :=
        promoteChildren_growths record.id (growth.sound sound) none
      rw [promoted] at promotion
      have drains :=
        (attach_drains branch record).trans (Growths.drains promotion)
      exact ⟨_, final, rfl, drains.unchecked unchecked⟩
  | @interrupted branch thrown final fresh _ wellFormed isBranch judged
      promoted =>
      have drains : Drains chain (chain.attach branch record) :=
        attach_drains branch record
      have draining : DrainingUnchecked backend (chain.attach branch record) :=
        ⟨sound.attach wellFormed fresh isBranch judged,
          drains.unchecked unchecked,
          drains.listedByParent settled.listedByParent⟩
      obtain ⟨count, next, finished⟩ :=
        (judges_drainingUnchecked backend).promoteChildren_returns draining
          (contains_attach.mpr (.inl rfl))
      rw [promoted] at finished
      cases finished

/-- A record as a replay inserts it. -/
def unchecked (record : OrphanShare) : OrphanShare :=
  uncheckedRecord record.share record.id

/-- The records a replay of the shares of some records inserts. -/
def replayPool (records : List OrphanShare) : Set OrphanShare :=
  Set.image unchecked { record | record ∈ records }

theorem replayPool_append
    (first second : List OrphanShare) :
    replayPool (first ++ second) = replayPool first ∪ replayPool second := by
  ext record
  simp only [replayPool, Set.mem_image, Set.mem_ofPred_eq, List.mem_append,
    Set.mem_union]
  constructor
  · rintro ⟨source, member | member, rfl⟩
    · exact .inl ⟨source, member, rfl⟩
    · exact .inr ⟨source, member, rfl⟩
  · rintro (⟨source, member, rfl⟩ | ⟨source, member, rfl⟩)
    · exact ⟨source, .inl member, rfl⟩
    · exact ⟨source, .inr member, rfl⟩

/-- Replaying one more record extends the pool by it. -/
theorem replayPool_snoc
    (records : List OrphanShare)
    (record : OrphanShare) :
    insert (uncheckedRecord record.share record.id) (replayPool records) =
      replayPool (records ++ [record]) := by
  rw [replayPool_append, Set.insert_eq, Set.union_comm]
  congr 1
  ext other
  simp [replayPool, unchecked, eq_comm]

/-- A chain into which a pool of records has been replayed. -/
structure Replaying
    (backend : Backend)
    (pool : Set OrphanShare)
    (chain : ShareChain) :
    Prop where
  wellFormed : WellFormed backend chain
  unchecked : Unchecked chain
  accounts : Accounts pool chain

section Replay

variable {pool : Set OrphanShare} {share : Share} {id : ShareId}
variable (replaying : Replaying backend pool chain)
variable
  (recordFormed :
    WellFormedRecord backend chain.difficultyPolicy (uncheckedRecord share id))
variable
  (distinct :
    DistinctRecords chain.difficultyPolicy
      (insert (uncheckedRecord share id) pool))

include replaying recordFormed distinct in
/-- An unchecked insertion returns normally and accounts for its record. -/
theorem addShareUnchecked_replaying :
    ∃ value next,
      addShareUnchecked backend share chain = .ok value next ∧
      AddOutcome backend chain (uncheckedRecord share id) (.ok value next) ∧
      next.difficultyPolicy = chain.difficultyPolicy ∧
      Replaying backend (insert (uncheckedRecord share id) pool) next := by
  have sound := replaying.wellFormed.sound
  have outcome :
      AddOutcome backend chain (uncheckedRecord share id)
        (addShareUnchecked backend share chain) :=
    addPrevalidatedShare_outcome recordFormed.keyed sound.standing
  obtain ⟨value, next, added, nextUnchecked⟩ :=
    outcome.unchecked sound replaying.wellFormed.settled replaying.unchecked
      rfl
  rw [added] at outcome
  have ran :
      (ChainOp.addUnchecked share).run backend chain = .ok () next :=
    bind_of_ok added
  obtain ⟨nextFormed, samePolicy, _⟩ :=
    ChainOp.run_wellFormed replaying.wellFormed ran
  exact ⟨value, next, added, outcome, samePolicy, nextFormed, nextUnchecked,
    replaying.accounts.add sound distinct recordFormed.structural outcome⟩

include replaying recordFormed distinct in
/-- A replayed share is accounted for. -/
theorem replayShare_accounts
    {next : ShareChain}
    (replayed : ShareStore.replayShare backend share chain = .ok () next) :
    next.difficultyPolicy = chain.difficultyPolicy ∧
      Replaying backend (insert (uncheckedRecord share id) pool) next := by
  obtain ⟨value, reached, added, _, samePolicy, nextReplaying⟩ :=
    addShareUnchecked_replaying replaying recordFormed distinct
  unfold ShareStore.replayShare at replayed
  rw [bind_of_ok added] at replayed
  split at replayed
  · cases replayed
  · split at replayed
    · cases replayed
    · cases replayed
      exact ⟨samePolicy, nextReplaying⟩

include replaying recordFormed distinct in
/-- A new record that is not refused is replayed without an exception. -/
theorem replayShare_ok
    (fresh : uncheckedRecord share id ∉ pool)
    (notRefused :
      ¬ (recordGenealogy chain.difficultyPolicy).Refused pool
        (uncheckedRecord share id)) :
    ∃ next, ShareStore.replayShare backend share chain = .ok () next := by
  have accounts := replaying.accounts
  have contained := Set.subset_insert (uncheckedRecord share id) pool
  obtain ⟨value, next, added, outcome, _, _⟩ :=
    addShareUnchecked_replaying replaying recordFormed distinct
  unfold ShareStore.replayShare
  rw [bind_of_ok added]
  cases outcome with
  | duplicate known =>
      exact (fresh (accounts.mem_of_known replaying.wellFormed.sound distinct
        known)).elim
  | malformed _ _ named refusal =>
      exact (refusal (named.symm.trans recordFormed.structural)).elim
  | buffered _ _ _ _ _ => exact ⟨_, rfl⟩
  | refused _ _ _ isBranch judged refusal =>
      exact (notRefused (accounts.refused_of_branch
        (distinct.subset contained) isBranch (by
          rw [judged]
          simpa using refusal))).elim
  | connected _ _ _ _ _ _ => exact ⟨_, rfl⟩

end Replay

section ReplayList

variable {policy : Option DifficultyPolicy} {records : List OrphanShare}
variable
  (formed :
    ∀ record ∈ records,
      WellFormedRecord backend policy (unchecked record))
variable (distinct : DistinctRecords policy (replayPool records))

include formed distinct in
/-- Replaying shares without an exception accounts for all of them. -/
theorem replayShares_accounts
    {done rest : List OrphanShare}
    (shape : records = done ++ rest)
    (samePolicy : chain.difficultyPolicy = policy)
    (replaying : Replaying backend (replayPool done) chain)
    {final : ShareChain}
    (replayed :
      ShareStore.replayShares backend (rest.map OrphanShare.share) chain =
        .ok () final) :
    final.difficultyPolicy = policy ∧
      Replaying backend (replayPool records) final := by
  induction rest generalizing done chain with
  | nil =>
      cases replayed
      rw [List.append_nil] at shape
      exact ⟨samePolicy, shape ▸ replaying⟩
  | cons record rest inductionHypothesis =>
      obtain ⟨⟨⟩, middle, first, later⟩ := bind_eq_ok.mp replayed
      have nextShape : records = (done ++ [record]) ++ rest := by
        simp [shape]
      obtain ⟨middlePolicy, middleReplaying⟩ :=
        replayShare_accounts replaying
          (by
            rw [samePolicy]
            exact formed record (by simp [shape]))
          (by
            rw [samePolicy]
            refine distinct.subset ?_
            rw [replayPool_snoc, nextShape, replayPool_append _ rest]
            exact Set.subset_union_left)
          first
      rw [replayPool_snoc] at middleReplaying
      exact inductionHypothesis nextShape (middlePolicy.trans samePolicy)
        middleReplaying later

include formed distinct in
/-- Shares that are not refused by those before them are replayed. -/
theorem replayShares_ok
    (nodup : (records.map unchecked).Nodup)
    (admissible :
      ∀ before record after, records = before ++ record :: after →
        ¬ (recordGenealogy policy).Refused (replayPool before)
          (unchecked record))
    {done rest : List OrphanShare}
    (shape : records = done ++ rest)
    (samePolicy : chain.difficultyPolicy = policy)
    (replaying : Replaying backend (replayPool done) chain) :
    ∃ final,
      ShareStore.replayShares backend (rest.map OrphanShare.share) chain =
        .ok () final := by
  induction rest generalizing done chain with
  | nil => exact ⟨chain, rfl⟩
  | cons record rest inductionHypothesis =>
      have nextShape : records = (done ++ [record]) ++ rest := by
        simp [shape]
      have recordFormed :
          WellFormedRecord backend chain.difficultyPolicy
            (uncheckedRecord record.share record.id) := by
        rw [samePolicy]
        exact formed record (by simp [shape])
      have nextDistinct :
          DistinctRecords chain.difficultyPolicy
            (insert (uncheckedRecord record.share record.id)
              (replayPool done)) := by
        rw [samePolicy]
        refine distinct.subset ?_
        rw [replayPool_snoc, nextShape, replayPool_append _ rest]
        exact Set.subset_union_left
      have fresh : unchecked record ∉ replayPool done := by
        rintro ⟨other, member, same⟩
        rw [shape, List.map_append, List.map_cons] at nodup
        have apart := (List.nodup_append.mp nodup).2.2
        exact apart _ (List.mem_map.mpr ⟨other, member, rfl⟩) _
          (by simp) same
      obtain ⟨middle, first⟩ :=
        replayShare_ok replaying recordFormed nextDistinct fresh (by
          rw [samePolicy]
          exact admissible done record rest shape)
      obtain ⟨middlePolicy, middleReplaying⟩ :=
        replayShare_accounts replaying recordFormed nextDistinct first
      rw [replayPool_snoc] at middleReplaying
      obtain ⟨final, later⟩ :=
        inductionHypothesis nextShape (middlePolicy.trans samePolicy)
          middleReplaying
      exact ⟨final, by
        rw [List.map_cons, ShareStore.replayShares, bind_of_ok first]
        exact later⟩

end ReplayList

/-- A fresh chain has replayed nothing. -/
theorem Fresh.replaying
    (fresh : Fresh backend chain) :
    Replaying backend (replayPool []) chain := by
  have nothing : replayPool [] = ∅ := by
    simp [replayPool]
  rw [nothing]
  refine ⟨fresh.wellFormed, ?_, fresh.accounts⟩
  rcases fresh with rfl | ⟨params, built⟩
  · intro id orphan found
    simp at found
  · obtain ⟨policy, parameterId, rfl⟩ := ofParameters_eq_ok built
    intro id orphan found
    simp at found

/-- What persistence preserves of a connected share. -/
def placed (entry : ConnectedShare) : Share × ChainWork :=
  (entry.share, entry.cumulativeWork)

/-- Two chains connect the same shares with the same work. -/
def SameConnected (chain other : ShareChain) : Prop :=
  ∀ id : ShareId,
    (other.connected[id]?).map placed = (chain.connected[id]?).map placed

/-- Chains that connect the same shares select the same tip. -/
theorem SameConnected.bestTip
    {other : ShareChain}
    (sound : Sound backend chain)
    (otherSound : Sound backend other)
    (same : SameConnected chain other) :
    other.bestTipId = chain.bestTipId := by
  refine otherSound.bestTip.unique otherSound.selfKeyed ?_
  have transfer :
      ∀ {id : ShareId} {entry : ConnectedShare},
        chain.connected[id]? = some entry →
          ∃ match_, other.connected[id]? = some match_ ∧
            tipRank match_ = tipRank entry := by
    intro id entry found
    have atId := same id
    rw [found, Option.map_some, Option.map_eq_some_iff] at atId
    obtain ⟨match_, present, equal⟩ := atId
    obtain ⟨sameShare, sameWork⟩ := Prod.mk.inj equal
    refine ⟨match_, present, ?_⟩
    rw [tipRank, tipRank, sameShare, sameWork, (sound.keyed found).1,
      (otherSound.keyed present).1]
  have best := sound.bestTip
  cases selected : chain.bestTipId with
  | none =>
      rw [selected] at best
      intro id
      have atId := same id
      rw [best id] at atId
      simpa using atId
  | some tip =>
      rw [selected] at best
      obtain ⟨entry, found, greatest⟩ := best
      obtain ⟨match_, present, sameRank⟩ := transfer found
      refine ⟨match_, present, ?_⟩
      intro id candidate candidateFound
      have atId := same id
      rw [candidateFound, Option.map_some, eq_comm, Option.map_eq_some_iff]
        at atId
      obtain ⟨original, originalFound, _⟩ := atId
      obtain ⟨again, againFound, againRank⟩ := transfer originalFound
      rw [candidateFound] at againFound
      cases againFound
      rw [sameRank, againRank]
      exact greatest originalFound

end ShareChain

end ZanoP2pool
