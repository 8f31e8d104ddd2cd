import ZanoP2pool.RestartRecovery
import ZanoP2pool.RestartValidation

namespace ZanoP2pool

open Foundation

/-!
# The validation cache across a reorganisation

The cache is bound to the canonical block below the work it covers.  A block hash
commits to all history before it, so a cache whose block is still canonical was
saved on the same history, and the work it covers stands on that history.  A call
that does not save leaves the file alone, and a call that does not restore leaves
the chain alone.
-/

/-- A history of block hashes, where a hash commits to the one before it. -/
structure ZanoHistory (previous : Hash256 → Hash256) where
  blockAt : Nat → Option Hash256
  linked :
    ∀ height hash,
      blockAt (height + 1) = some hash →
        blockAt height = some (previous hash)

namespace ZanoHistory

variable {previous : Hash256 → Hash256} {first second : ZanoHistory previous}

/-- Two histories with one block in common are the same below it. -/
theorem agrees_below
    {height : Nat}
    {hash : Hash256}
    (here : first.blockAt height = some hash)
    (there : second.blockAt height = some hash) :
    ∀ below ≤ height, first.blockAt below = second.blockAt below := by
  induction height generalizing hash with
  | zero =>
      intro below bounded
      obtain rfl := Nat.le_zero.mp bounded
      rw [here, there]
  | succ height inductionHypothesis =>
      intro below bounded
      rcases Nat.le_succ_iff.mp bounded with lower | rfl
      · exact inductionHypothesis (first.linked _ _ here)
          (second.linked _ _ there) below lower
      · rw [here, there]

end ZanoHistory

/-- The answers of a source are blocks of one history. -/
def CanonicalHeaders.AnswersFrom
    {previous : Hash256 → Hash256}
    (headers : CanonicalHeaders)
    (history : ZanoHistory previous) :
    Prop :=
  ∀ call height header,
    headers call height = .ok header →
      history.blockAt height.toNat = some header.hash

section Lookups

variable {headers : CanonicalHeaders} {calls last : Nat}

/-- A stable parent was answered for the height below the work. -/
theorem stableCanonicalParentForWorkHeight_ok
    {zanoHeight : UInt64}
    {hash : Hash256}
    (ran :
      stableCanonicalParentForWorkHeight headers.lookup zanoHeight calls =
        .ok hash last) :
    ∃ call header,
      headers call (zanoHeight - 1) = .ok header ∧ header.hash = hash := by
  unfold stableCanonicalParentForWorkHeight at ran
  by_cases zero : zanoHeight = 0
  · rw [if_pos zero] at ran
    cases ran
  rw [if_neg zero] at ran
  obtain ⟨header, middle, asked, ran⟩ := bind_eq_ok.mp ran
  obtain ⟨second, _, _, ran⟩ := bind_eq_ok.mp ran
  split_ifs at ran
  · cases ran
  · cases ran
  · cases ran
    exact ⟨calls, header, (CanonicalHeaders.lookup_eq_ok.mp asked).1, rfl⟩

/-- A checkpoint that matches was answered for its height. -/
theorem stableCanonicalCheckpointMatches_ok
    {checkpoint : ReplayValidationCheckpoint}
    (ran :
      stableCanonicalCheckpointMatches headers.lookup checkpoint calls =
        .ok true last) :
    ∃ call header,
      headers call checkpoint.zanoHeight = .ok header ∧
        header.hash = checkpoint.blockHash := by
  unfold stableCanonicalCheckpointMatches at ran
  by_cases zero : checkpoint.blockHash = 0
  · rw [if_pos zero] at ran
    cases ran
  rw [if_neg zero] at ran
  obtain ⟨header, middle, asked, ran⟩ := bind_eq_ok.mp ran
  obtain ⟨second, _, _, ran⟩ := bind_eq_ok.mp ran
  split_ifs at ran
  · cases ran
  · cases ran
  · cases ran
  · refine ⟨calls, header, (CanonicalHeaders.lookup_eq_ok.mp asked).1, ?_⟩
    simp only [pure_apply, EStateM.Result.ok.injEq, decide_eq_true_eq] at ran
    exact ran.1

end Lookups

section Persist

variable {backend : Backend} {process : RestartProcess}

/-- Every covered record has nonzero height, at most that of the checkpoint. -/
theorem checkpointCovers_eq_true
    {chain : ShareChain}
    {checkpointWorkHeight : UInt64}
    {records : List ReplayValidationRecord}
    (covered :
      checkpointCovers chain checkpointWorkHeight records = .ok true) :
    ∀ record ∈ records, ∃ entry,
      chain.connected[record.shareId]? = some entry ∧
        entry.share.zanoHeight ≠ 0 ∧
        entry.share.zanoHeight ≤ checkpointWorkHeight := by
  induction records with
  | nil => simp
  | cons record rest inductionHypothesis =>
      unfold checkpointCovers at covered
      cases found : chain.find record.shareId with
      | none =>
          rw [found] at covered
          cases covered
      | some entry =>
          rw [found] at covered
          simp only at covered
          by_cases zero : entry.share.zanoHeight = 0
          · rw [if_pos zero] at covered
            cases covered
          rw [if_neg zero] at covered
          by_cases above : entry.share.zanoHeight > checkpointWorkHeight
          · rw [if_pos above] at covered
            cases covered
          · rw [if_neg above] at covered
            intro other member
            rcases List.mem_cons.mp member with rfl | later
            · exact ⟨entry, found, zero, UInt64.not_lt.mp above⟩
            · exact inductionHypothesis covered other later

/-- A save that throws leaves the file as it was. -/
theorem save_error
    {fault : Option Exception}
    {snapshot : ReplayValidationSnapshot}
    {store final : ReplayValidationStore}
    {thrown : Exception}
    (failed :
      ReplayValidationStore.save backend fault snapshot store =
        .error thrown final) :
    final = store := by
  unfold ReplayValidationStore.save at failed
  rw [get_bind_apply, bind_apply] at failed
  cases written : ReplayValidationStore.serializeSnapshot backend
      store.expectedSidechainId snapshot with
  | error _ =>
      rw [written] at failed
      cases failed
      rfl
  | ok bytes =>
      rw [written] at failed
      cases fault with
      | some _ =>
          cases failed
          rfl
      | none => cases failed

/-- A save that returns has written its snapshot. -/
theorem save_ok
    {fault : Option Exception}
    {snapshot : ReplayValidationSnapshot}
    {store final : ReplayValidationStore}
    (saved :
      ReplayValidationStore.save backend fault snapshot store =
        .ok () final) :
    ∃ bytes,
      ReplayValidationStore.serializeSnapshot backend
          store.expectedSidechainId snapshot = .ok bytes ∧
        final = { store with file := some bytes } := by
  unfold ReplayValidationStore.save at saved
  rw [get_bind_apply] at saved
  obtain ⟨bytes, middle, written, saved⟩ := bind_eq_ok.mp saved
  obtain ⟨written, rfl⟩ := orThrow_eq_ok.mp written
  cases fault with
  | some _ => cases saved
  | none =>
      cases saved
      exact ⟨bytes, written, rfl⟩

/-- The three ways in which a call of the export can end. -/
inductive PersistOutcome
    (backend : Backend)
    (headers : CanonicalHeaders)
    (checkpointWorkHeight : UInt64)
    (process : RestartProcess) :
    EStateM.Result Exception RestartProcess
      RestartReplayValidationPersistResult → Prop where
  | threw
      (thrown : Exception)
      (calls : Nat) :
      PersistOutcome backend headers checkpointWorkHeight process
        (.error thrown { process with calls })
  | refused
      {value : RestartReplayValidationPersistResult}
      (unsaved : value.status ≠ .saved)
      (calls : Nat) :
      PersistOutcome backend headers checkpointWorkHeight process
        (.ok value { process with calls })
  | saved
      {value : RestartReplayValidationPersistResult}
      {checkpoint : ReplayValidationCheckpoint}
      {records : List ReplayValidationRecord}
      {bytes : List UInt8}
      (reported : value.status = .saved)
      (nonzero : checkpointWorkHeight ≠ 0)
      (below : checkpoint.zanoHeight = checkpointWorkHeight - 1)
      (answered :
        ∃ call header,
          headers call checkpoint.zanoHeight = .ok header ∧
            header.hash = checkpoint.blockHash)
      (exported :
        ShareChain.replayValidationSnapshot backend process.chain =
          .ok records)
      (covered :
        checkpointCovers process.chain checkpointWorkHeight records =
          .ok true)
      (written :
        ReplayValidationStore.serializeSnapshot backend
          process.store.expectedSidechainId { checkpoint, records } =
            .ok bytes)
      (calls : Nat) :
      PersistOutcome backend headers checkpointWorkHeight process
        (.ok value
          { process with
            calls
            store := { process.store with file := some bytes } })

/-- Every call of the export ends in one of these ways. -/
theorem persistReplayedValidationCache_outcome
    (params : SidechainParameters)
    (headers : CanonicalHeaders)
    (fault : Option Exception)
    (checkpointWorkHeight : UInt64)
    (expectedParentHash : Hash256) :
    PersistOutcome backend headers checkpointWorkHeight process
      (persistReplayedValidationCache backend params headers.lookup fault
        checkpointWorkHeight expectedParentHash process) := by
  have throws :
      ∀ thrown, PersistOutcome backend headers checkpointWorkHeight process
        (.error thrown process) :=
    fun thrown => .threw thrown process.calls
  unfold persistReplayedValidationCache
  rw [get_bind_apply]
  cases matched :
      process.chain.matchesSidechainParameters backend params with
  | error thrown => exact throws thrown
  | ok configured =>
  rw [bind_of_ok (orThrow_ok _ _)]
  by_cases mismatch : (!configured) = true
  · rw [if_pos mismatch]
    exact throws _
  rw [if_neg mismatch]
  by_cases zero : checkpointWorkHeight = 0
  · rw [if_pos zero]
    exact throws _
  rw [if_neg zero]
  by_cases unexpected : expectedParentHash = 0
  · rw [if_pos unexpected]
    exact throws _
  rw [if_neg unexpected]
  rw [bind_apply]
  cases asked : onDaemon (stableCanonicalParentForWorkHeight headers.lookup
      checkpointWorkHeight) process with
  | error thrown after =>
      obtain ⟨calls, _, rfl⟩ := zoom_eq_error.mp asked
      exact .threw thrown calls
  | ok stableParent after =>
  obtain ⟨calls, stable, rfl⟩ := zoom_eq_ok.mp asked
  simp only
  by_cases zeroParent : stableParent = 0
  · rw [if_pos zeroParent]
    exact .threw _ calls
  rw [if_neg zeroParent]
  by_cases changed : stableParent ≠ expectedParentHash
  · rw [if_pos changed]
    exact .refused (by simp) calls
  rw [if_neg changed]
  cases exported :
      ShareChain.replayValidationSnapshot backend process.chain with
  | error thrown => exact .threw thrown calls
  | ok records =>
  rw [bind_of_ok (orThrow_ok _ _)]
  cases covered :
      checkpointCovers process.chain checkpointWorkHeight records with
  | error thrown => exact .threw thrown calls
  | ok covers =>
  rw [bind_of_ok (orThrow_ok _ _)]
  by_cases tooOld : (!covers) = true
  · rw [if_pos tooOld]
    exact .refused (by simp) calls
  rw [if_neg tooOld]
  obtain rfl : covers = true := by simpa using tooOld
  rw [bind_apply]
  let checkpoint : ReplayValidationCheckpoint :=
    { zanoHeight := checkpointWorkHeight - 1, blockHash := stableParent }
  cases stored : onCache (ReplayValidationStore.save backend fault
      { checkpoint, records }) { process with calls } with
  | error thrown after =>
      obtain ⟨store, failed, rfl⟩ := zoom_eq_error.mp stored
      have same : store = process.store := save_error failed
      subst store
      exact .threw thrown calls
  | ok nothing after =>
      obtain ⟨store, succeeded, rfl⟩ := zoom_eq_ok.mp stored
      obtain ⟨bytes, written, rfl⟩ := save_ok succeeded
      exact .saved rfl zero rfl (stableCanonicalParentForWorkHeight_ok stable)
        exported covered written calls

end Persist

section Restore

variable {backend : Backend} {process : RestartProcess}

/-- The three ways in which a call of the restore can end. -/
inductive RestoreOutcome
    (backend : Backend)
    (headers : CanonicalHeaders)
    (process : RestartProcess) :
    EStateM.Result Exception RestartProcess
      RestartReplayValidationResult → Prop where
  | threw
      (thrown : Exception)
      (calls : Nat) :
      RestoreOutcome backend headers process
        (.error thrown { process with calls })
  | unmoved
      {value : RestartReplayValidationResult}
      (unrestored : value.status ≠ .restored)
      (calls : Nat) :
      RestoreOutcome backend headers process
        (.ok value { process with calls })
  | restored
      {value : RestartReplayValidationResult}
      {snapshot : ReplayValidationSnapshot}
      {bytes : List UInt8}
      {count : Nat}
      {final : ShareChain}
      (settled : value.status = .restored)
      (present : process.store.file = some bytes)
      (parsed :
        ReplayValidationStore.parseSnapshot backend
          process.store.expectedSidechainId bytes = .ok snapshot)
      (reported : value.checkpoint = some snapshot.checkpoint)
      (answered :
        ∃ call header,
          headers call snapshot.checkpoint.zanoHeight = .ok header ∧
            header.hash = snapshot.checkpoint.blockHash)
      (restoring :
        ShareChain.restoreReplayValidation backend snapshot.records
          process.chain = .ok count final)
      (calls : Nat) :
      RestoreOutcome backend headers process
        (.ok value { process with calls, chain := final })

/-- A loaded snapshot is what the file parses to. -/
theorem load_eq_some
    {fault : Option Exception}
    {store : ReplayValidationStore}
    {snapshot : ReplayValidationSnapshot}
    (loaded : store.load backend fault = .ok (some snapshot)) :
    ∃ bytes,
      store.file = some bytes ∧
        ReplayValidationStore.parseSnapshot backend store.expectedSidechainId
          bytes = .ok snapshot := by
  unfold ReplayValidationStore.load at loaded
  cases present : store.file with
  | none =>
      rw [present] at loaded
      cases loaded
  | some bytes =>
      rw [present] at loaded
      cases fault with
      | some _ => cases loaded
      | none =>
          obtain ⟨found, parsed, same⟩ := except_bind_eq_ok.mp loaded
          cases same
          exact ⟨bytes, rfl, parsed⟩

/-- A restore that throws leaves the chain as it was. -/
theorem restoreReplayValidation_unchanged
    (sound : ShareChain.Sound backend process.chain)
    (trusted : ShareChain.Trusted process.chain)
    {records : List ReplayValidationRecord}
    {thrown : Exception}
    {final : ShareChain}
    (failed :
      ShareChain.restoreReplayValidation backend records process.chain =
        .error thrown final) :
    final = process.chain := by
  by_cases accepted : ShareChain.RestoreAccepted process.chain records
  · obtain ⟨count, last, ran, _⟩ :=
      ShareChain.restoreReplayValidation_ok sound trusted accepted
    rw [ran] at failed
    cases failed
  · by_cases empty : records = []
    · subst records
      cases failed
    · obtain ⟨_, ran⟩ :=
        ShareChain.restoreReplayValidation_error sound trusted empty accepted
      rw [ran] at failed
      cases failed
      rfl

/-- Every call of the restore ends in one of these ways. -/
theorem restoreReplayedValidationCache_outcome
    (sound : ShareChain.Sound backend process.chain)
    (trusted : ShareChain.Trusted process.chain)
    (params : SidechainParameters)
    (headers : CanonicalHeaders)
    (fault : Option Exception) :
    RestoreOutcome backend headers process
      (restoreReplayedValidationCache backend params headers.lookup fault
        process) := by
  unfold restoreReplayedValidationCache
  rw [get_bind_apply]
  cases matched :
      process.chain.matchesSidechainParameters backend params with
  | error thrown => exact .threw thrown process.calls
  | ok configured =>
  rw [bind_of_ok (orThrow_ok _ _)]
  by_cases mismatch : (!configured) = true
  · rw [if_pos mismatch]
    exact .threw _ process.calls
  rw [if_neg mismatch]
  cases loaded : process.store.load backend fault with
  | error thrown => exact .threw thrown process.calls
  | ok found =>
  rw [bind_of_ok (orThrow_ok _ _)]
  cases found with
  | none => exact .unmoved (by simp) process.calls
  | some snapshot =>
  obtain ⟨bytes, present, parsed⟩ := load_eq_some loaded
  simp only
  rw [bind_apply]
  cases asked : onDaemon (stableCanonicalCheckpointMatches headers.lookup
      snapshot.checkpoint) process with
  | error thrown after =>
      obtain ⟨calls, _, rfl⟩ := zoom_eq_error.mp asked
      exact .threw thrown calls
  | ok canonical after =>
  obtain ⟨calls, stable, rfl⟩ := zoom_eq_ok.mp asked
  cases canonical with
  | false => exact .unmoved (by simp) calls
  | true =>
  simp only [if_true]
  rw [bind_apply]
  cases restoring : onReplayedChain
      (ShareChain.restoreReplayValidation backend snapshot.records)
      { process with calls } with
  | error thrown after =>
      obtain ⟨chain, failed, rfl⟩ := zoom_eq_error.mp restoring
      have same : chain = process.chain :=
        restoreReplayValidation_unchanged sound trusted failed
      subst chain
      exact .threw thrown calls
  | ok count after =>
      obtain ⟨chain, succeeded, rfl⟩ := zoom_eq_ok.mp restoring
      exact .restored rfl present parsed rfl
        (stableCanonicalCheckpointMatches_ok stable) succeeded calls

/-- A share that is validated after a restore was so before, or is listed. -/
theorem restoreReplayValidation_listed
    {chain final : ShareChain}
    (sound : ShareChain.Sound backend chain)
    (trusted : ShareChain.Trusted chain)
    {records : List ReplayValidationRecord}
    {count : Nat}
    (ran :
      ShareChain.restoreReplayValidation backend records chain =
        .ok count final)
    {id : ShareId}
    {entry : ConnectedShare}
    (found : final.connected[id]? = some entry)
    (validated : entry.validatedAncestry = true) :
    ∃ earlier,
      chain.connected[id]? = some earlier ∧ earlier.share = entry.share ∧
        (earlier.validatedAncestry = true ∨
          id ∈ records.map ReplayValidationRecord.shareId) := by
  by_cases accepted : ShareChain.RestoreAccepted chain records
  · obtain ⟨_, last, same, installed⟩ :=
      ShareChain.restoreReplayValidation_ok sound trusted accepted
    rw [same] at ran
    cases ran
    have effect := installed.effect accepted.distinct
    cases present : chain.connected[id]? with
    | none =>
        rw [effect.sameIds id present] at found
        cases found
    | some earlier =>
        by_cases unlisted :
            earlier.validatedAncestry = true ∨
              id ∉ records.map ReplayValidationRecord.shareId
        · rw [effect.kept id earlier present unlisted] at found
          cases found
          exact ⟨entry, rfl, rfl, .inl validated⟩
        · rw [not_or, not_not] at unlisted
          obtain ⟨record, member, rfl⟩ := List.mem_map.mp unlisted.2
          rw [effect.upgraded record member earlier present
            (Bool.not_eq_true _ ▸ unlisted.1)] at found
          cases found
          exact ⟨earlier, rfl, rfl, .inr unlisted.2⟩
  · by_cases empty : records = []
    · subst records
      cases ran
      exact ⟨entry, found, rfl, .inl validated⟩
    · obtain ⟨_, failed⟩ :=
        ShareChain.restoreReplayValidation_error sound trusted empty accepted
      rw [failed] at ran
      cases ran

end Restore

/-- A caller of the cache: its chain, its daemon and the faults of its disk. -/
structure CacheCaller (backend : Backend) where
  chain : ShareChain
  reached :
    ∃ start ops,
      ShareChain.Fresh backend start ∧ attemptOps backend ops start = chain
  params : SidechainParameters
  sidechainId : SidechainId
  named : sidechainId ≠ 0
  headers : CanonicalHeaders
  fault : Option Exception

namespace CacheCaller

variable {backend : Backend}

/-- The chain of a caller satisfies the invariants of chains. -/
theorem upright
    (caller : CacheCaller backend) :
    ShareChain.Sound backend caller.chain ∧
      ShareChain.Trusted caller.chain := by
  obtain ⟨start, ops, fresh, reached⟩ := caller.reached
  have kept := @attemptOps_sound backend ops start fresh.wellFormed.sound
    fresh.wellFormed.trusted
  rw [reached] at kept
  exact ⟨kept.1, kept.2.1⟩

/-- The process of a caller, with the file as it is. -/
def process
    (caller : CacheCaller backend)
    (file : Option (List UInt8)) :
    RestartProcess where
  chain := caller.chain
  store :=
    { expectedSidechainId := caller.sidechainId
      file
      named := caller.named }

def persist
    (caller : CacheCaller backend)
    (checkpointWorkHeight : UInt64)
    (expectedParentHash : Hash256)
    (file : Option (List UInt8)) :
    EStateM.Result Exception RestartProcess
      RestartReplayValidationPersistResult :=
  persistReplayedValidationCache backend caller.params caller.headers.lookup
    caller.fault checkpointWorkHeight expectedParentHash (caller.process file)

def restore
    (caller : CacheCaller backend)
    (file : Option (List UInt8)) :
    EStateM.Result Exception RestartProcess RestartReplayValidationResult :=
  restoreReplayedValidationCache backend caller.params caller.headers.lookup
    caller.fault (caller.process file)

/-- How a call of the export by a caller ends. -/
theorem persist_outcome
    (caller : CacheCaller backend)
    (checkpointWorkHeight : UInt64)
    (expectedParentHash : Hash256)
    (file : Option (List UInt8)) :
    PersistOutcome backend caller.headers checkpointWorkHeight
      (caller.process file)
      (caller.persist checkpointWorkHeight expectedParentHash file) :=
  persistReplayedValidationCache_outcome caller.params caller.headers
    caller.fault checkpointWorkHeight expectedParentHash

/-- How a call of the restore by a caller ends. -/
theorem restore_outcome
    (caller : CacheCaller backend)
    (file : Option (List UInt8)) :
    RestoreOutcome backend caller.headers (caller.process file)
      (caller.restore file) :=
  restoreReplayedValidationCache_outcome caller.upright.1 caller.upright.2
    caller.params caller.headers caller.fault

end CacheCaller

/-- One call of the cache, by any process. -/
inductive CacheCall (backend : Backend) where
  | persist
      (caller : CacheCaller backend)
      (checkpointWorkHeight : UInt64)
      (expectedParentHash : Hash256)
  | restore
      (caller : CacheCaller backend)

namespace CacheCall

variable {backend : Backend}

/-- The file after a call. -/
def fileAfter
    (file : Option (List UInt8)) :
    CacheCall backend → Option (List UInt8)
  | .persist caller checkpointWorkHeight expectedParentHash =>
      (finalState (caller.persist checkpointWorkHeight expectedParentHash
        file)).store.file
  | .restore caller => (finalState (caller.restore file)).store.file

/-- Whether a call returns that it saved. -/
def saves
    (file : Option (List UInt8)) :
    CacheCall backend → Bool
  | .persist caller checkpointWorkHeight expectedParentHash =>
      (returned (caller.persist checkpointWorkHeight expectedParentHash
        file)).any fun result => result.status = .saved
  | .restore _ => false

/-- The file after calls in a row. -/
def fileAfterAll
    (calls : List (CacheCall backend))
    (file : Option (List UInt8)) :
    Option (List UInt8) :=
  calls.foldl fileAfter file

/-- No call in a row returns that it saved. -/
def NeverSave :
    List (CacheCall backend) → Option (List UInt8) → Prop
  | [], _ => True
  | call :: rest, file =>
      call.saves file = false ∧ NeverSave rest (call.fileAfter file)

/-- A call that does not save leaves the file as it was. -/
theorem fileAfter_of_not_saves
    {call : CacheCall backend}
    {file : Option (List UInt8)}
    (unsaved : call.saves file = false) :
    call.fileAfter file = file := by
  cases call with
  | persist caller checkpointWorkHeight expectedParentHash =>
      have outcome :=
        caller.persist_outcome checkpointWorkHeight expectedParentHash file
      simp only [fileAfter]
      simp only [saves] at unsaved
      generalize caller.persist checkpointWorkHeight expectedParentHash file =
        result at outcome unsaved
      cases outcome with
      | threw thrown calls => rfl
      | refused refused calls => rfl
      | saved reported nonzero below answered exported covered written calls =>
          simp [returned, reported] at unsaved
  | restore caller =>
      have outcome := caller.restore_outcome file
      simp only [fileAfter]
      generalize caller.restore file = result at outcome
      cases outcome with
      | threw thrown calls => rfl
      | unmoved unrestored calls => rfl
      | restored settled present parsed reported answered restoring calls =>
          rfl

/-- Calls that do not save leave the file as it was. -/
theorem fileAfterAll_of_neverSave
    {calls : List (CacheCall backend)}
    {file : Option (List UInt8)}
    (unsaved : NeverSave calls file) :
    fileAfterAll calls file = file := by
  induction calls generalizing file with
  | nil => rfl
  | cons call rest inductionHypothesis =>
      obtain ⟨first, later⟩ := unsaved
      have same := fileAfter_of_not_saves first
      rw [same] at later
      rw [fileAfterAll, List.foldl_cons, same]
      exact inductionHypothesis later

end CacheCall

/-- The parent that a share's work was built on is a block of a history. -/
def ZanoHistory.HasParent
    {previous : Hash256 → Hash256}
    (history : ZanoHistory previous)
    (workParent : Share → Hash256)
    (share : Share) :
    Prop :=
  history.blockAt (share.zanoHeight.toNat - 1) = some (workParent share)

/-- An identity names one share, whichever of two chains connects it. -/
def SameNames (chain other : ShareChain) : Prop :=
  ∀ (id : ShareId) first second,
    chain.connected[id]? = some first →
    other.connected[id]? = some second →
      first.share = second.share

section Histories

variable {backend : Backend} {previous : Hash256 → Hash256}
variable {saved current : ZanoHistory previous}
variable {workParent : Share → Hash256}
variable {saver restorer : CacheCaller backend}

/-- The file written by one caller, as another one reads it. -/
theorem parseSnapshot_of_written
    {written read : SidechainId}
    {snapshot loaded : ReplayValidationSnapshot}
    {bytes : List UInt8}
    (serialized :
      ReplayValidationStore.serializeSnapshot backend written snapshot =
        .ok bytes)
    (parsed :
      ReplayValidationStore.parseSnapshot backend read bytes = .ok loaded) :
    loaded = ReplayValidationStore.sortedSnapshot snapshot := by
  have file := ReplayValidationStore.serializeSnapshot_eq_ok.mp serialized
  have readBack := ReplayValidationStore.parseSnapshot_eq_ok.mpr file
  have sameId : hashBytes read = hashBytes written := by
    rw [← (ReplayValidationStore.parseSnapshot_eq_ok.mp parsed).fields.2.1,
      ← file.fields.2.1]
  have same : read = written := by
    apply BitVec.eq_of_toNat_eq
    have spelled (hash : Hash256) :
        ofBigEndian (hashBytes hash) = hash.toNat :=
      ofBigEndian_bigEndian_of_lt (lt_of_lt_of_eq hash.isLt (by norm_num))
    rw [← spelled read, ← spelled written, sameId]
  subst read
  rw [parsed] at readBack
  exact Except.ok.inj readBack

/-- A record exported under a checkpoint is that of a validated share it covers. -/
theorem exported_covered
    {chain : ShareChain}
    (sound : ShareChain.Sound backend chain)
    (trusted : ShareChain.Trusted chain)
    {checkpointWorkHeight : UInt64}
    {records : List ReplayValidationRecord}
    (exported :
      ShareChain.replayValidationSnapshot backend chain = .ok records)
    (covered :
      checkpointCovers chain checkpointWorkHeight records = .ok true)
    {record : ReplayValidationRecord}
    (member : record ∈ records) :
    ∃ entry,
      chain.connected[record.shareId]? = some entry ∧
        entry.validatedAncestry = true ∧
        entry.share.zanoHeight ≠ 0 ∧
        entry.share.zanoHeight ≤ checkpointWorkHeight := by
  have configured : chain.difficultyPolicy.isSome = true := by
    cases policy : chain.difficultyPolicy with
    | none =>
        unfold ShareChain.replayValidationSnapshot at exported
        rw [policy] at exported
        cases exported
    | some _ => rfl
  obtain ⟨all, same, exports⟩ :=
    ShareChain.replayValidationSnapshot_exports sound trusted configured
  rw [exported] at same
  cases same
  obtain ⟨entry, found, validated, _⟩ := (exports.mem record).mp member
  obtain ⟨other, otherFound, nonzero, bounded⟩ :=
    checkpointCovers_eq_true covered record member
  obtain rfl := Option.some.inj (found.symm.trans otherFound)
  exact ⟨entry, found, validated, nonzero, bounded⟩

/-- The work of a covered share stands below the checkpoint. -/
theorem HasParent_of_agrees
    {share : Share}
    {checkpointWorkHeight : UInt64}
    (nonzero : checkpointWorkHeight ≠ 0)
    (bounded : share.zanoHeight ≤ checkpointWorkHeight)
    (agree :
      ∀ height ≤ (checkpointWorkHeight - 1).toNat,
        saved.blockAt height = current.blockAt height)
    (parent : saved.HasParent workParent share) :
    share.zanoHeight.toNat ≤ (checkpointWorkHeight - 1).toNat + 1 ∧
      current.HasParent workParent share := by
  have positive : 1 ≤ checkpointWorkHeight := by
    rw [UInt64.le_iff_toNat_le]
    have : checkpointWorkHeight.toNat ≠ 0 := fun zero =>
      nonzero (UInt64.toNat_inj.mp zero)
    exact Nat.one_le_iff_ne_zero.mpr this
  have below := UInt64.toNat_sub_of_le _ _ positive
  rw [UInt64.le_iff_toNat_le] at bounded positive
  have one : (1 : UInt64).toNat = 1 := rfl
  refine ⟨by omega, ?_⟩
  unfold ZanoHistory.HasParent at parent ⊢
  rw [← agree _ (by omega)]
  exact parent

end Histories

/--
A cache that restores was saved on the history it is restored under, and covers
only work that stands on this history; a call that does not save leaves the file
alone, and one that does not restore leaves the chain alone.
-/
theorem validationCache_followsHistory
    (backend : Backend) :
    (∀ {previous : Hash256 → Hash256}
        (saved current : ZanoHistory previous)
        (workParent : Share → Hash256)
        (saver restorer : CacheCaller backend)
        (checkpointWorkHeight : UInt64)
        (expectedParentHash : Hash256)
        (between : List (CacheCall backend))
        (file : Option (List UInt8))
        persisted afterSave restored final,
      saver.persist checkpointWorkHeight expectedParentHash file =
        .ok persisted afterSave →
      persisted.status = .saved →
      saver.headers.AnswersFrom saved →
      (∀ (id : ShareId) entry,
        saver.chain.connected[id]? = some entry →
        entry.validatedAncestry = true →
          saved.HasParent workParent entry.share) →
      CacheCall.NeverSave between afterSave.store.file →
      restorer.restore (CacheCall.fileAfterAll between afterSave.store.file) =
        .ok restored final →
      restored.status = .restored →
      restorer.headers.AnswersFrom current →
      SameNames saver.chain restorer.chain →
        ∃ checkpoint,
          restored.checkpoint = some checkpoint ∧
          (∀ height ≤ checkpoint.zanoHeight.toNat,
            saved.blockAt height = current.blockAt height) ∧
          ∀ (id : ShareId) entry,
            final.chain.connected[id]? = some entry →
            entry.validatedAncestry = true →
            (∀ earlier,
              restorer.chain.connected[id]? = some earlier →
                earlier.validatedAncestry = false) →
              entry.share.zanoHeight.toNat ≤
                  checkpoint.zanoHeight.toNat + 1 ∧
                current.HasParent workParent entry.share) ∧
    (∀ (caller : CacheCaller backend) checkpointWorkHeight expectedParentHash
        file,
      (∀ value final,
        caller.persist checkpointWorkHeight expectedParentHash file =
            .ok value final →
        value.status ≠ .saved → final.store.file = file) ∧
      (∀ thrown final,
        caller.persist checkpointWorkHeight expectedParentHash file =
            .error thrown final →
        final.store.file = file)) ∧
    (∀ (caller : CacheCaller backend) file,
      (∀ value final,
        caller.restore file = .ok value final →
        value.status ≠ .restored → final.chain = caller.chain) ∧
      (∀ thrown final,
        caller.restore file = .error thrown final →
        final.chain = caller.chain)) := by
  refine ⟨?_, ?_, ?_⟩
  · intro previous saved current workParent saver restorer
      checkpointWorkHeight expectedParentHash between file persisted afterSave
      restored final persisting savedStatus savedAnswers canonical unsaved
      restoring restoredStatus currentAnswers names
    rw [CacheCall.fileAfterAll_of_neverSave unsaved] at restoring
    have saving :=
      saver.persist_outcome checkpointWorkHeight expectedParentHash file
    rw [persisting] at saving
    generalize persistedAs : EStateM.Result.ok persisted afterSave = result
      at saving
    cases saving with
    | threw thrown calls => cases persistedAs
    | refused refused calls =>
        cases persistedAs
        exact (refused savedStatus).elim
    | @saved value checkpoint records bytes _ nonzero below answered exported
        covered written calls =>
    cases persistedAs
    have reading := restorer.restore_outcome (some bytes)
    rw [restoring] at reading
    generalize restoredAs : EStateM.Result.ok restored final = result
      at reading
    cases reading with
    | threw thrown calls => cases restoredAs
    | unmoved unrestored calls =>
        cases restoredAs
        exact (unrestored restoredStatus).elim
    | @restored value loaded others count chain _ present parsed reported
        answeredAgain restores calls =>
    cases restoredAs
    cases present
    obtain rfl := parseSnapshot_of_written written parsed
    obtain ⟨call, header, headerGiven, headerHash⟩ := answered
    obtain ⟨again, other, otherGiven, otherHash⟩ := answeredAgain
    have here := savedAnswers _ _ _ headerGiven
    have there := currentAnswers _ _ _ otherGiven
    rw [headerHash] at here
    rw [otherHash] at there
    have agree := ZanoHistory.agrees_below here there
    refine ⟨_, reported, agree, ?_⟩
    intro id entry found validated fresh
    obtain ⟨earlier, earlierFound, sameShare, reason⟩ :=
      restoreReplayValidation_listed restorer.upright.1 restorer.upright.2
        restores found validated
    rcases reason with already | listed
    · rw [fresh earlier earlierFound] at already
      cases already
    obtain ⟨record, sorted, rfl⟩ := List.mem_map.mp listed
    obtain ⟨origin, originFound, originValidated, _, bounded⟩ :=
      exported_covered saver.upright.1 saver.upright.2 exported covered
        ((List.perm_insertionSort _ records).mem_iff.mp sorted)
    have parent := canonical _ _ originFound originValidated
    rw [names _ _ _ originFound earlierFound, sameShare] at bounded parent
    simp only [ReplayValidationStore.sortedSnapshot, below] at agree ⊢
    exact HasParent_of_agrees nonzero bounded agree parent
  · intro caller checkpointWorkHeight expectedParentHash file
    have outcome :=
      caller.persist_outcome checkpointWorkHeight expectedParentHash file
    generalize caller.persist checkpointWorkHeight expectedParentHash file =
      result at outcome
    cases outcome with
    | threw thrown calls =>
        refine ⟨(fun _ _ returned => nomatch returned), ?_⟩
        rintro _ _ ⟨⟩
        rfl
    | refused refused calls =>
        refine ⟨?_, (fun _ _ threw => nomatch threw)⟩
        rintro _ _ ⟨⟩ _
        rfl
    | saved reported nonzero below answered exported covered written calls =>
        refine ⟨?_, (fun _ _ threw => nomatch threw)⟩
        rintro _ _ ⟨⟩ unsaved
        exact (unsaved reported).elim
  · intro caller file
    have outcome := caller.restore_outcome file
    generalize caller.restore file = result at outcome
    cases outcome with
    | threw thrown calls =>
        refine ⟨(fun _ _ returned => nomatch returned), ?_⟩
        rintro _ _ ⟨⟩
        rfl
    | unmoved unrestored calls =>
        refine ⟨?_, (fun _ _ threw => nomatch threw)⟩
        rintro _ _ ⟨⟩ _
        rfl
    | restored settled present parsed reported answered restoring calls =>
        refine ⟨?_, (fun _ _ threw => nomatch threw)⟩
        rintro _ _ ⟨⟩ unrestored
        exact (unrestored settled).elim

/-- A history in which each block is named by the number of blocks up to it. -/
def sampleHistory (tip : Nat) : ZanoHistory (· - 1) where
  blockAt := fun height =>
    if height ≤ tip then some (BitVec.ofNat 256 (height + 1)) else none
  linked := by
    intro height hash found
    by_cases inside : height + 1 ≤ tip
    · rw [if_pos inside] at found
      cases found
      rw [if_pos (by omega), BitVec.ofNat_add (height + 1) 1]
      exact congrArg some (BitVec.add_sub_cancel _ _).symm
    · rw [if_neg inside] at found
      cases found

/-- A daemon at the tip of that history. -/
def sampleHeaders (tip : Nat) : CanonicalHeaders := fun _ height =>
  if height.toNat ≤ tip then
    .ok { height, hash := BitVec.ofNat 256 (height.toNat + 1) }
  else
    .error (.runtimeError "historical header RPC status is not OK")

theorem sampleHeaders_answer (tip : Nat) :
    (sampleHeaders tip).AnswersFrom (sampleHistory tip) := by
  intro call height header answered
  unfold sampleHeaders at answered
  by_cases inside : height.toNat ≤ tip
  · rw [if_pos inside] at answered
    cases answered
    exact if_pos inside
  · rw [if_neg inside] at answered
    cases answered

/-- A caller with the chain of some calls and a daemon at some height. -/
def sampleCaller (ops : List ChainOp) (tip : Nat) : CacheCaller sampleBackend where
  chain := attemptOps sampleBackend ops sampleStart
  reached :=
    ⟨sampleStart, ops, .inr ⟨sampleParameters, sampleStart_built⟩, rfl⟩
  params := sampleParameters
  sidechainId := 9
  named := by decide
  headers := sampleHeaders tip
  fault := none

/-- A check of the listed entries is a check of all connected shares. -/
theorem connected_of_all
    {chain : ShareChain}
    {check : ShareId → ConnectedShare → Bool}
    (checked :
      (chain.connected.toList.all fun item => check item.1 item.2) = true)
    {id : ShareId}
    {entry : ConnectedShare}
    (found : chain.connected[id]? = some entry) :
    check id entry = true :=
  List.all_eq_true.mp checked (id, entry)
    (Std.ExtTreeMap.mem_toList_iff_getElem?_eq_some.mpr found)

theorem sampleCallers_sameNames :
    SameNames (sampleCaller sampleOps 6).chain
      (sampleCaller sampleReplayOps 8).chain := by
  intro id first second found otherFound
  have checked := @connected_of_all (sampleCaller sampleOps 6).chain
    (fun id first =>
      ((sampleCaller sampleReplayOps 8).chain.connected[id]?).all
        fun second => first.share = second.share)
    (by decide +kernel) id first found
  rw [otherFound] at checked
  simpa using checked

theorem sampleCaller_hasParents
    (id : ShareId)
    (entry : ConnectedShare)
    (found : (sampleCaller sampleOps 6).chain.connected[id]? = some entry) :
    (sampleHistory 6).HasParent (fun _ => 7) entry.share := by
  have height := @connected_of_all (sampleCaller sampleOps 6).chain
    (fun _ entry => entry.share.zanoHeight = 7) (by decide +kernel) id entry
    found
  rw [decide_eq_true_eq] at height
  unfold ZanoHistory.HasParent
  rw [height]
  rfl

/-- The sample shares are saved on seven blocks and restored on nine. -/
theorem sampleCache_followsHistory :
    ∃ afterSave restored final checkpoint,
      (sampleCaller sampleOps 6).persist 7 7 none =
        .ok
          { status := .saved
            checkpoint := some { zanoHeight := 6, blockHash := 7 }
            recordsExported := 2
            recordsSaved := 2 } afterSave ∧
      (sampleCaller sampleReplayOps 8).restore
          (CacheCall.fileAfterAll
            [.persist (sampleCaller sampleReplayOps 8) 7 3]
            afterSave.store.file) = .ok restored final ∧
      final.chain.validatedIds = [1, 2] ∧
      restored.checkpoint = some checkpoint ∧
      (∀ height ≤ checkpoint.zanoHeight.toNat,
        (sampleHistory 6).blockAt height =
          (sampleHistory 8).blockAt height) := by
  have saving :
      returned ((sampleCaller sampleOps 6).persist 7 7 none) =
        some
          { status := .saved
            checkpoint := some { zanoHeight := 6, blockHash := 7 }
            recordsExported := 2
            recordsSaved := 2 } := by decide +kernel
  have restoring :
      returned ((sampleCaller sampleReplayOps 8).restore
          (CacheCall.fileAfterAll
            [.persist (sampleCaller sampleReplayOps 8) 7 3]
            (finalState ((sampleCaller sampleOps 6).persist 7 7
              none)).store.file)) =
        some
          { status := .restored
            checkpoint := some { zanoHeight := 6, blockHash := 7 }
            recordsLoaded := 2
            recordsRestored := 2 } := by decide +kernel
  obtain ⟨checkpoint, reported, agree, _⟩ :=
    (validationCache_followsHistory sampleBackend).1 (sampleHistory 6)
      (sampleHistory 8) (fun _ => 7) (sampleCaller sampleOps 6)
      (sampleCaller sampleReplayOps 8) 7 7
      [.persist (sampleCaller sampleReplayOps 8) 7 3] none _ _ _ _
      (eq_ok_of_returned saving) rfl (sampleHeaders_answer 6)
      (fun id entry found _ => sampleCaller_hasParents id entry found)
      ⟨by decide +kernel, trivial⟩ (eq_ok_of_returned restoring) rfl
      (sampleHeaders_answer 8) sampleCallers_sameNames
  exact ⟨_, _, _, checkpoint, eq_ok_of_returned saving,
    eq_ok_of_returned restoring, by decide +kernel, reported, agree⟩

end ZanoP2pool
