import ZanoP2pool.ConsensusAgreement
import ZanoP2pool.ReplayValidationFormat
import ZanoP2pool.ShareChainRestoreLaws
import ZanoP2pool.ShareSnapshotReplay

namespace ZanoP2pool

open Foundation

/-!
# Validation survives a restart

A chain exports the validation of its shares, the store writes and reads it, and
the chain reloaded from the persistence snapshot restores it.  Every record is
accepted there, because the reloaded chain connects the same shares.  So the same
shares are validated, and every payout window is the same.
-/

namespace ShareChain

variable {backend : Backend} {chain other : ShareChain}

section Views

/-- What a payout window reads of an entry. -/
def payoutView (entry : ConnectedShare) : Share × Bool :=
  (entry.share, entry.validatedAncestry)

/-- Two chains connect the same shares with the same flags. -/
def SamePayoutView (chain other : ShareChain) : Prop :=
  ∀ id : ShareId,
    (other.connected[id]?).map payoutView =
      (chain.connected[id]?).map payoutView

/-- A share missing in one chain is missing in the other. -/
theorem SamePayoutView.missing
    (sameView : SamePayoutView chain other)
    {id : ShareId}
    (absent : chain.connected[id]? = none) :
    other.connected[id]? = none := by
  have same := sameView id
  rw [absent, Option.map_none] at same
  exact Option.map_eq_none_iff.mp same

/-- A share found in one chain is found in the other. -/
theorem SamePayoutView.present
    (sameView : SamePayoutView chain other)
    {id : ShareId}
    {entry : ConnectedShare}
    (found : chain.connected[id]? = some entry) :
    ∃ twin, other.connected[id]? = some twin ∧
      payoutView twin = payoutView entry := by
  have same := sameView id
  rw [found, Option.map_some] at same
  exact Option.map_eq_some_iff.mp same

variable (samePolicy : chain.difficultyPolicy = other.difficultyPolicy)
variable (sameView : SamePayoutView chain other)

include samePolicy sameView in
theorem recentWork_congr
    (budget : Nat)
    {entry twin : ConnectedShare}
    (same : payoutView twin = payoutView entry) :
    recentWork chain budget entry = recentWork other budget twin := by
  induction budget generalizing entry twin with
  | zero => rfl
  | succ budget inductionHypothesis =>
      obtain ⟨sameShare, sameFlag⟩ := Prod.mk.inj same
      unfold recentWork
      rw [requireValidatedPayoutAncestry_agrees samePolicy sameFlag.symm,
        ← sameShare]
      cases found : chain.connected[twin.share.parentId]? with
      | none => simp only [find, found, sameView.missing found]
      | some parent =>
          obtain ⟨otherParent, otherFound, sameParent⟩ :=
            sameView.present found
          simp only [find, found, otherFound, inductionHypothesis sameParent]

include samePolicy sameView in
theorem creditShares_congr
    (budget : Nat)
    (walk : WindowWalk)
    {entry twin : ConnectedShare}
    (same : payoutView twin = payoutView entry) :
    creditShares backend chain budget entry walk =
      creditShares backend other budget twin walk := by
  induction budget generalizing entry twin walk with
  | zero => rfl
  | succ budget inductionHypothesis =>
      obtain ⟨sameShare, sameFlag⟩ := Prod.mk.inj same
      unfold creditShares
      rw [creditShare_agrees samePolicy sameShare.symm sameFlag.symm,
        ← sameShare]
      cases found : chain.connected[twin.share.parentId]? with
      | none => simp only [find, found, sameView.missing found]
      | some parent =>
          obtain ⟨otherParent, otherFound, sameParent⟩ :=
            sameView.present found
          simp only [find, found, otherFound,
            fun next => inductionHypothesis next sameParent]

include samePolicy sameView in
theorem buildPplnsWindowAtParent_congr
    (parentId : ShareId)
    (requestedWork : ChainWork) :
    buildPplnsWindowAtParent backend chain parentId requestedWork =
      buildPplnsWindowAtParent backend other parentId requestedWork := by
  unfold buildPplnsWindowAtParent pplnsParent
  cases isZeroShareId parentId with
  | true => rfl
  | false =>
      cases found : chain.connected[parentId]? with
      | none =>
          simp only [find, found, sameView.missing found, Bool.false_eq_true,
            if_false, bind, Except.bind]
      | some parent =>
          obtain ⟨twin, otherFound, same⟩ := sameView.present found
          have credits :=
            @creditShares_congr backend chain other samePolicy sameView
              requestedWork.toNat { remaining := requestedWork.toNat }
              parent twin same
          simp only [find, found, otherFound, Bool.false_eq_true, if_false,
            bind, Except.bind, credits]

include samePolicy sameView in
/-- Windows at any parent only depend on the shares and their flags. -/
theorem buildSidechainPplnsWindowAtParent_congr
    (parentId : ShareId)
    (params : SidechainParameters)
    (networkDifficulty : Difficulty128) :
    buildSidechainPplnsWindowAtParent backend chain parentId params
        networkDifficulty =
      buildSidechainPplnsWindowAtParent backend other parentId params
        networkDifficulty := by
  have windows : ∀ requestedWork, _ = _ :=
    @buildPplnsWindowAtParent_congr backend chain other samePolicy sameView
      parentId
  unfold buildSidechainPplnsWindowAtParent pplnsParent
  cases isZeroShareId parentId with
  | true => rfl
  | false =>
      cases found : chain.connected[parentId]? with
      | none =>
          simp only [find, found, sameView.missing found, Bool.false_eq_true,
            if_false, bind, Except.bind]
      | some parent =>
          obtain ⟨twin, otherFound, same⟩ := sameView.present found
          have recent :=
            recentWork_congr samePolicy sameView
              params.pplnsWindowShares.toNat same
          simp only [find, found, otherFound, Bool.false_eq_true, if_false,
            bind, Except.bind, recent, windows]

end Views

section Export

/-- The records that a chain exports. -/
structure Exports
    (chain : ShareChain)
    (records : List ReplayValidationRecord) :
    Prop where
  distinct : (records.map ReplayValidationRecord.shareId).Nodup
  length : records.length = chain.validatedEntries.length
  mem :
    ∀ record,
      record ∈ records ↔
        ∃ entry,
          chain.connected[record.shareId]? = some entry ∧
          entry.validatedAncestry = true ∧
          entry.powValidation = some record.validation

/-- The export lists exactly the validated shares with their results. -/
theorem replayValidationSnapshot_exports
    (sound : Sound backend chain)
    (trusted : Trusted chain)
    (configured : chain.difficultyPolicy.isSome = true) :
    ∃ records,
      replayValidationSnapshot backend chain = .ok records ∧
        Exports chain records := by
  obtain ⟨exported, related, snapshot⟩ :=
    replayValidationSnapshot_ok sound trusted configured
  have permuted :
      ((exported.insertionSort recordBefore).map Prod.snd).Perm
        (exported.map Prod.snd) :=
    (List.perm_insertionSort recordBefore exported).map Prod.snd
  have exportedAs :
      ∀ entry item,
        entry ∈ chain.validatedEntries →
        exportEntry backend chain entry = .ok item →
          item.2.shareId = entry.id ∧
            entry.powValidation = some item.2.validation := by
    intro entry item member written
    obtain ⟨id, found, flagged⟩ := mem_validatedEntries.mp member
    obtain ⟨validation, stored, exported⟩ :=
      exportEntry_ok sound trusted found flagged
    rw [exported] at written
    cases written
    exact ⟨(sound.keyed found).1.symm, stored⟩
  have sameIds :
      (exported.map Prod.snd).map ReplayValidationRecord.shareId =
        chain.validatedEntries.map ConnectedShare.id := by
    rw [List.map_map]
    apply List.ext_getElem
    · rw [List.length_map, List.length_map, related.length_eq]
    · intro index inExported inValidated
      rw [List.getElem_map, List.getElem_map]
      exact (exportedAs _ _ (List.getElem_mem _)
        (List.Forall₂.get related (by simpa using inValidated)
          (by simpa using inExported))).1
  have distinct :
      (chain.validatedEntries.map ConnectedShare.id).Nodup := by
    have keys : (chain.connected.toList.map Prod.fst).Nodup := by
      rw [Std.ExtTreeMap.map_fst_toList_eq_keys]
      exact Std.ExtTreeMap.nodup_keys
    have same :
        (chain.connected.toList.map Prod.snd).map ConnectedShare.id =
          chain.connected.toList.map Prod.fst := by
      rw [List.map_map]
      refine List.map_congr_left fun item member => ?_
      exact (sound.keyed
        (Std.ExtTreeMap.mem_toList_iff_getElem?_eq_some.mp member)).1
    refine List.Nodup.sublist (List.filter_sublist.map _) ?_
    rw [same]
    exact keys
  refine ⟨_, snapshot, ?_, ?_, ?_⟩
  · refine (permuted.map _).nodup_iff.mpr ?_
    rw [sameIds]
    exact distinct
  · rw [permuted.length_eq, List.length_map, related.length_eq]
  · intro record
    rw [permuted.mem_iff, List.mem_map]
    constructor
    · rintro ⟨item, member, rfl⟩
      obtain ⟨index, bound, rfl⟩ := List.getElem_of_mem member
      have validBound : index < chain.validatedEntries.length := by
        rw [related.length_eq]
        exact bound
      have here := exportedAs _ _ (List.getElem_mem validBound)
        (List.Forall₂.get related validBound bound)
      obtain ⟨id, found, flagged⟩ :=
        mem_validatedEntries.mp (List.getElem_mem validBound)
      refine ⟨_, ?_, flagged, here.2⟩
      simp only [List.get_eq_getElem] at here found ⊢
      rw [here.1, (sound.keyed found).1, found]
    · rintro ⟨entry, found, flagged, stored⟩
      obtain ⟨index, bound, same⟩ := List.getElem_of_mem
        (mem_validatedEntries.mpr ⟨record.shareId, found, flagged⟩)
      have exportBound : index < exported.length := by
        rw [← related.length_eq]
        exact bound
      have here := exportedAs _ _ (List.getElem_mem bound)
        (List.Forall₂.get related bound exportBound)
      refine ⟨exported[index], List.getElem_mem exportBound, ?_⟩
      simp only [List.get_eq_getElem, same] at here
      rw [stored, (sound.keyed found).1] at here
      cases shape : exported[index].2 with
      | mk shareId validation =>
          rw [shape] at here
          obtain ⟨rfl, results⟩ := here
          cases results
          rfl

end Export

section Restart

open ReplayValidationStore

/-- An exported record passes the checks of the store. -/
theorem validateRecord_ok
    {record : ReplayValidationRecord}
    (nonzero : record.shareId ≠ 0)
    (consistent : replayValidationConsistent record.validation = true) :
    validateRecord record = .ok () := by
  unfold replayValidationConsistent at consistent
  unfold validateRecord
  rw [if_neg (fun zero => nonzero (isZeroShareId_iff.mp zero))]
  cases meets : record.validation.meetsShareDifficulty with
  | false => simp [meets] at consistent
  | true =>
      simp only [meets, Bool.not_true, Bool.false_eq_true,
        if_false] at consistent ⊢
      cases classified : record.validation.classification with
      | invalid => simp [classified] at consistent
      | share =>
          simp only [classified, Bool.not_eq_true'] at consistent
          simp [consistent, pure, Except.pure]
      | block =>
          simp only [classified] at consistent
          simp [consistent, pure, Except.pure]

/-- What the records of a chain are, seen from the chain. -/
theorem Exports.entry
    {records : List ReplayValidationRecord}
    (exports : Exports chain records)
    {id : ShareId}
    {entry : ConnectedShare}
    {validation : CandidateValidation}
    (found : chain.connected[id]? = some entry)
    (flagged : entry.validatedAncestry = true)
    (stored : entry.powValidation = some validation) :
    { shareId := id, validation } ∈ records :=
  (exports.mem _).mpr ⟨entry, found, flagged, stored⟩

/-- Records of few enough shares are written and read back in id order. -/
theorem Exports.stored
    {records : List ReplayValidationRecord}
    (exports : Exports chain records)
    (trusted : Trusted chain)
    (nonzeroIds :
      ∀ ⦃id : ShareId⦄ ⦃entry : ConnectedShare⦄,
        chain.connected[id]? = some entry → id ≠ 0)
    (few : chain.validatedEntries.length ≤ kMaxRecords.toNat)
    (sidechainId : SidechainId)
    {checkpoint : ReplayValidationCheckpoint}
    (anchored : checkpoint.blockHash ≠ 0) :
    ∃ bytes,
      serializeSnapshot backend sidechainId { checkpoint, records } =
          .ok bytes ∧
        parseSnapshot backend sidechainId bytes =
          .ok { checkpoint, records := records.insertionSort recordLe } := by
  have reordered := List.perm_insertionSort recordLe records
  have valid :
      ∀ record ∈ records.insertionSort recordLe,
        validateRecord record = .ok () := by
    intro record member
    obtain ⟨entry, found, flagged, stored⟩ :=
      (exports.mem record).mp (reordered.mem_iff.mp member)
    obtain ⟨validation, storedAgain, consistent⟩ :=
      (trusted.validated found flagged).work
    rw [stored] at storedAgain
    cases storedAgain
    exact validateRecord_ok (nonzeroIds found) consistent
  have increasing : Increasing none (records.insertionSort recordLe) := by
    have sorted := sorted_insertionSort records
    have distinct := ((reordered.map _).nodup_iff).mpr exports.distinct
    rw [Option.toList_none, List.nil_append] at sorted
    rw [Increasing, Option.toList_none, List.nil_append]
    exact (sorted.and distinct).imp fun both => lt_of_le_of_ne both.1 both.2
  obtain ⟨region, encoded⟩ := exists_recordRegion valid
  have file :
      FileOf backend sidechainId
        { checkpoint, records := records.insertionSort recordLe } _ :=
    ⟨anchored, by
      dsimp only
      rw [reordered.length_eq, exports.length]
      exact few, valid, increasing, region, encoded, rfl⟩
  exact ⟨_, serializeSnapshot_eq_ok.mpr file, parseSnapshot_eq_ok.mpr file⟩

variable {reloaded : ShareChain}
variable (sound : Sound backend chain) (trusted : Trusted chain)
variable (samePolicy : reloaded.difficultyPolicy = chain.difficultyPolicy)
variable (same : SameConnected chain reloaded)

include same in
/-- A connected share is connected in the reloaded chain. -/
theorem SameConnected.twin
    {id : ShareId}
    {entry : ConnectedShare}
    (found : chain.connected[id]? = some entry) :
    ∃ twin, reloaded.connected[id]? = some twin ∧
      twin.share = entry.share := by
  have placedSame := same id
  rw [found, Option.map_some] at placedSame
  obtain ⟨twin, present, places⟩ := Option.map_eq_some_iff.mp placedSame
  exact ⟨twin, present, (Prod.mk.inj places).1⟩

include sound trusted samePolicy same in
/-- Every exported record is accepted by the reloaded chain. -/
theorem Exports.accepted
    {records : List ReplayValidationRecord}
    (exports : Exports chain records)
    (configured : chain.difficultyPolicy.isSome = true)
    (reloadedSound : Sound backend reloaded)
    (unvalidated :
      ∀ ⦃id : ShareId⦄ ⦃entry : ConnectedShare⦄,
        reloaded.connected[id]? = some entry →
          entry.validatedAncestry = false)
    (nonzeroIds :
      ∀ ⦃id : ShareId⦄ ⦃entry : ConnectedShare⦄,
        chain.connected[id]? = some entry → id ≠ 0) :
    RestoreAccepted reloaded records := by
  refine ⟨by rw [samePolicy]; exact configured, exports.distinct, ?_, ?_⟩
  · intro record member
    obtain ⟨entry, found, flagged, stored⟩ := (exports.mem record).mp member
    obtain ⟨validation, storedAgain, consistent⟩ :=
      (trusted.validated found flagged).work
    rw [stored] at storedAgain
    cases storedAgain
    exact ⟨nonzeroIds found, consistent⟩
  · intro record member
    obtain ⟨entry, found, flagged, stored⟩ := (exports.mem record).mp member
    have entitled := trusted.validated found flagged
    obtain ⟨twin, present, sameShare⟩ := same.twin found
    obtain ⟨branch, isBranch, expected⟩ := entitled.difficulty
    obtain ⟨linkedBranch, below, linked, _⟩ := sound.rooted found
    obtain rfl := below.unique isBranch
    have reloadedBranch :
        Branch reloaded.connected entry.share.parentId linkedBranch :=
      below.mono fun id older olderFound => same.twin olderFound
    refine ⟨twin, present, ?_, ?_, ?_, ?_⟩
    · intro already
      rw [unvalidated present] at already
      cases already
    · intro _
      exact reloadedSound.structural present
    · intro _ notRoot
      rw [sameShare] at notRoot ⊢
      obtain ⟨parent, rest, parentFound, shape, _⟩ :=
        reloadedBranch.head notRoot
      rw [shape] at linked
      refine ⟨.inr ?_, parent, parentFound, linked⟩
      rcases parentValidated_iff.mp entitled.parent with
        zero | ⟨chainParent, chainParentFound, parentFlagged⟩
      · exact absurd zero notRoot
      · obtain ⟨validation, parentStored, _⟩ :=
          (trusted.validated chainParentFound parentFlagged).work
        exact List.mem_map.mpr ⟨_, exports.entry chainParentFound
          parentFlagged parentStored, rfl⟩
    · intro _
      rw [sameShare, expectedDifficultyRejectReason_eq reloadedSound.rooted
        reloadedBranch, samePolicy]
      exact expected

/-- The stored result of a share, if the share is validated. -/
def validationOf (chain : ShareChain) (id : ShareId) :
    Option (Option CandidateValidation) :=
  (chain.connected[id]?).bind fun entry =>
    if entry.validatedAncestry then some entry.powValidation else none

include trusted same in
/-- After the restore the reloaded chain has the flags of the chain. -/
theorem Restored.sameViews
    {records : List ReplayValidationRecord}
    {final : ShareChain}
    (exports : Exports chain records)
    (unvalidated :
      ∀ ⦃id : ShareId⦄ ⦃entry : ConnectedShare⦄,
        reloaded.connected[id]? = some entry →
          entry.validatedAncestry = false)
    (restored : Restored reloaded records final) :
    SamePayoutView chain final ∧
      ∀ id, final.validationOf id = chain.validationOf id := by
  have entrywise :
      ∀ id : ShareId,
        (final.connected[id]?).map payoutView =
            (chain.connected[id]?).map payoutView ∧
          final.validationOf id = chain.validationOf id := by
    intro id
    unfold validationOf
    cases found : chain.connected[id]? with
    | none =>
        have absent : reloaded.connected[id]? = none := by
          have placedSame := same id
          rw [found, Option.map_none] at placedSame
          exact Option.map_eq_none_iff.mp placedSame
        rw [restored.connected, absent]
        exact ⟨rfl, rfl⟩
    | some entry =>
        obtain ⟨twin, present, sameShare⟩ := same.twin found
        have unflagged := unvalidated present
        cases flagged : entry.validatedAncestry with
        | true =>
            obtain ⟨validation, stored, _⟩ :=
              (trusted.validated found flagged).work
            have upgraded :=
              restored.upgraded exports.distinct
                (exports.entry found flagged stored) present unflagged
            dsimp only at upgraded
            rw [upgraded]
            simp [payoutView, sameShare, flagged, stored]
        | false =>
            have unlisted :
                id ∉ records.map ReplayValidationRecord.shareId := by
              rintro listed
              obtain ⟨record, member, rfl⟩ := List.mem_map.mp listed
              obtain ⟨other, otherFound, otherFlagged, _⟩ :=
                (exports.mem record).mp member
              rw [found] at otherFound
              cases otherFound
              rw [flagged] at otherFlagged
              cases otherFlagged
            rw [restored.kept present (.inr unlisted)]
            simp [payoutView, sameShare, flagged, unflagged]
  exact ⟨fun id => (entrywise id).1, fun id => (entrywise id).2⟩

end Restart

end ShareChain

/-- A replay without proofs validates nothing on a configured chain. -/
theorem ShareChain.Replaying.unvalidated
    {backend : Backend}
    {records : List OrphanShare}
    {chain : ShareChain}
    (replaying :
      ShareChain.Replaying backend (ShareChain.replayPool records) chain)
    {id : ShareId}
    {entry : ConnectedShare}
    (found : chain.connected[id]? = some entry) :
    entry.validatedAncestry = false := by
  obtain ⟨record, below, lineage, _, rfl⟩ :=
    replaying.accounts.connected found
  cases lineage with
  | extend _ member _ _ =>
      obtain ⟨source, _, rfl⟩ := member
      simp [ShareChain.lineageEntry, ShareChain.branchEntry,
        ShareChain.lineageValidated, ShareChain.unchecked,
        ShareChain.uncheckedRecord, ShareChain.establishesWork]

/--
The validation of every reachable configured chain survives a restart: the
snapshot is replayed, the exported records are written, read and restored, and
the restored chain has the same validated shares and payout windows.
-/
theorem validation_survivesRestart
    {backend : Backend}
    {params : SidechainParameters}
    {start chain : ShareChain}
    {ops : List ChainOp}
    (built : ShareChain.ofParameters backend params = .ok start)
    (identified :
      ∀ share ∈ ops.filterMap ChainOp.share?, shareId backend share ≠ .ok 0)
    (ran : runOps backend ops start = .ok () chain)
    (few : chain.validatedEntries.length ≤ 1000000)
    (sidechainId : SidechainId)
    {checkpoint : ReplayValidationCheckpoint}
    (anchored : checkpoint.blockHash ≠ 0) :
    ∃ reloaded records bytes parsed count final,
      ShareStore.replayShares backend chain.persistenceSnapshot start =
        .ok () reloaded ∧
      ShareChain.replayValidationSnapshot backend chain = .ok records ∧
      ReplayValidationStore.serializeSnapshot backend sidechainId
        { checkpoint, records } = .ok bytes ∧
      ReplayValidationStore.parseSnapshot backend sidechainId bytes =
        .ok parsed ∧
      ShareChain.restoreReplayValidation backend parsed.records reloaded =
        .ok count final ∧
      (∀ id, final.validationOf id = chain.validationOf id) ∧
      ∀ parentId windowParams networkDifficulty,
        buildSidechainPplnsWindowAtParent backend final parentId
            windowParams networkDifficulty =
          buildSidechainPplnsWindowAtParent backend chain parentId
            windowParams networkDifficulty := by
  have fresh : ShareChain.Fresh backend start := .inr ⟨params, built⟩
  obtain ⟨policy, parameterId, rfl⟩ := ShareChain.ofParameters_eq_ok built
  obtain ⟨wellFormed, samePolicy, _⟩ :=
    runOps_wellFormed fresh.wellFormed ran
  have nonzero := runOps_nonzero fresh identified ran
  have configured : chain.difficultyPolicy.isSome = true := by
    rw [samePolicy]
    rfl
  have nonzeroIds :
      ∀ ⦃id : ShareId⦄ ⦃entry : ConnectedShare⦄,
        chain.connected[id]? = some entry → id ≠ 0 := by
    rintro id entry found rfl
    exact nonzero.1 found (wellFormed.sound.keyed found).2
  obtain ⟨reloaded, replayed, reloadedPolicy, replaying⟩ :=
    ShareChain.replaySnapshot_ok wellFormed nonzero fresh samePolicy.symm
  have same :=
    ShareChain.reloaded_sameConnected wellFormed nonzero replaying
      reloadedPolicy
  obtain ⟨records, snapshot, exports⟩ :=
    ShareChain.replayValidationSnapshot_exports wellFormed.sound
      wellFormed.trusted configured
  obtain ⟨bytes, written, read⟩ :=
    @ShareChain.Exports.stored backend chain records exports
      wellFormed.trusted nonzeroIds few sidechainId checkpoint anchored
  have accepted :=
    (exports.accepted wellFormed.sound wellFormed.trusted reloadedPolicy same
      configured replaying.wellFormed.sound
      (fun _ _ found => replaying.unvalidated found) nonzeroIds).perm
      (List.perm_insertionSort ReplayValidationStore.recordLe records).symm
  obtain ⟨count, final, restores, installed⟩ :=
    ShareChain.restoreReplayValidation_ok replaying.wellFormed.sound
      replaying.wellFormed.trusted accepted
  have inOrder :=
    installed.perm
      (List.perm_insertionSort ReplayValidationStore.recordLe records)
      accepted.distinct
  obtain ⟨sameView, sameValidation⟩ :=
    inOrder.restored.sameViews wellFormed.trusted same exports
      (fun _ _ found => replaying.unvalidated found)
  have finalPolicy : chain.difficultyPolicy = final.difficultyPolicy := by
    rw [inOrder.restored.unchanged]
    exact reloadedPolicy.symm
  refine ⟨reloaded, records, bytes, _, count, final, replayed, snapshot,
    written, read, restores, sameValidation, ?_⟩
  intro parentId windowParams networkDifficulty
  exact (ShareChain.buildSidechainPplnsWindowAtParent_congr finalPolicy
    sameView parentId windowParams networkDifficulty).symm

/-- The restored sample validates what the sample chain validated. -/
theorem sampleHeldOps_survivesRestart :
    (finalState (runOps sampleBackend sampleHeldOps
        sampleStart)).validatedIds = [1, 2] ∧
      ∃ reloaded records bytes parsed count final,
        ShareStore.replayShares sampleBackend
            (finalState (runOps sampleBackend sampleHeldOps
              sampleStart)).persistenceSnapshot sampleStart =
          .ok () reloaded ∧
        ShareChain.replayValidationSnapshot sampleBackend
            (finalState (runOps sampleBackend sampleHeldOps sampleStart)) =
          .ok records ∧
        ReplayValidationStore.serializeSnapshot sampleBackend 9
            { checkpoint := { zanoHeight := 7, blockHash := 5 }, records } =
          .ok bytes ∧
        ReplayValidationStore.parseSnapshot sampleBackend 9 bytes =
          .ok parsed ∧
        ShareChain.restoreReplayValidation sampleBackend parsed.records
            reloaded = .ok count final ∧
        (∀ id, final.validationOf id =
          (finalState (runOps sampleBackend sampleHeldOps
            sampleStart)).validationOf id) ∧
        ∀ parentId windowParams networkDifficulty,
          buildSidechainPplnsWindowAtParent sampleBackend final parentId
              windowParams networkDifficulty =
            buildSidechainPplnsWindowAtParent sampleBackend
              (finalState (runOps sampleBackend sampleHeldOps sampleStart))
              parentId windowParams networkDifficulty :=
  ⟨by decide +kernel, validation_survivesRestart sampleStart_built
    (by decide +kernel) (eq_ok_of_succeeds (by decide +kernel))
    (by decide +kernel) 9 (by decide +kernel)⟩

end ZanoP2pool
