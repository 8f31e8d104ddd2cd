import ZanoP2pool.ShareChainInvariants

namespace ZanoP2pool

open Foundation

/-!
# Laws of the restore on reachable chains

A restore is all or nothing, its outcome does not depend on the order of the
records, and repeating it changes nothing.
-/

namespace ShareChain

variable {backend : Backend} {chain : ShareChain}

/-- Identities whose entry differs between two chains. -/
def changedIds (chain final : ShareChain) : List ShareId :=
  chain.connected.keys.filter fun id =>
    decide (final.connected[id]? ≠ chain.connected[id]?)

/-- What a successful restore does to the chain, entry by entry. -/
structure RestoreEffect
    (chain : ShareChain)
    (records : List ReplayValidationRecord)
    (count : Nat)
    (final : ShareChain) :
    Prop where
  onlyConnected : final = { chain with connected := final.connected }
  sameIds :
    ∀ id : ShareId,
      chain.connected[id]? = none → final.connected[id]? = none
  kept :
    ∀ (id : ShareId) entry,
      chain.connected[id]? = some entry →
      entry.validatedAncestry = true ∨
          id ∉ records.map ReplayValidationRecord.shareId →
        final.connected[id]? = some entry
  upgraded :
    ∀ record ∈ records, ∀ entry,
      chain.connected[record.shareId]? = some entry →
      entry.validatedAncestry = false →
        final.connected[record.shareId]? =
          some { entry with
            powValidation := some record.validation
            validatedAncestry := true }
  counted : count = (changedIds chain final).length

/-- The entry of a listed record that was not validated is upgraded. -/
theorem Restored.upgraded
    {records : List ReplayValidationRecord}
    {final : ShareChain}
    (distinct : (records.map ReplayValidationRecord.shareId).Nodup)
    (restored : Restored chain records final)
    {record : ReplayValidationRecord}
    (member : record ∈ records)
    {entry : ConnectedShare}
    (found : chain.connected[record.shareId]? = some entry)
    (unflagged : entry.validatedAncestry = false) :
    final.connected[record.shareId]? =
      some { entry with
        powValidation := some record.validation
        validatedAncestry := true } := by
  rw [restored.connected, found, Option.map_some, restoredEntry,
    find?_record distinct member]
  simp [unflagged]

/-- Other entries stay as they were. -/
theorem Restored.kept
    {records : List ReplayValidationRecord}
    {final : ShareChain}
    (restored : Restored chain records final)
    {id : ShareId}
    {entry : ConnectedShare}
    (found : chain.connected[id]? = some entry)
    (untouched :
      entry.validatedAncestry = true ∨
        id ∉ records.map ReplayValidationRecord.shareId) :
    final.connected[id]? = some entry := by
  rw [restored.connected, found, Option.map_some, restoredEntry]
  rcases untouched with flagged | unlisted
  · simp [flagged]
  · have absent :
        (records.find? fun record => record.shareId == id) = none := by
      rw [List.find?_eq_none]
      intro record member same
      exact unlisted (List.mem_map.mpr ⟨record, member, by simpa using same⟩)
    simp [absent]

/-- The entries that differ are those of the records that needed it. -/
theorem mem_changedIds
    {records : List ReplayValidationRecord}
    {final : ShareChain}
    (distinct : (records.map ReplayValidationRecord.shareId).Nodup)
    (restored : Restored chain records final)
    {id : ShareId} :
    id ∈ changedIds chain final ↔
      id ∈ (records.filter chain.needsUpgrade).map
        ReplayValidationRecord.shareId := by
  simp only [changedIds, List.mem_filter, decide_eq_true_eq, List.mem_map]
  constructor
  · rintro ⟨listed, changed⟩
    rw [Std.ExtTreeMap.mem_keys, Std.ExtTreeMap.mem_iff_contains,
      contains_iff_getElem?] at listed
    obtain ⟨entry, found⟩ := listed
    by_contra none
    apply changed
    rw [found]
    refine restored.kept found ?_
    by_contra touched
    rw [not_or, not_not, Bool.not_eq_true] at touched
    obtain ⟨unflagged, inRecords⟩ := touched
    obtain ⟨record, member, rfl⟩ := List.mem_map.mp inRecords
    exact none ⟨record, ⟨member, by simp [needsUpgrade, found, unflagged]⟩, rfl⟩
  · rintro ⟨record, ⟨member, needed⟩, rfl⟩
    simp only [needsUpgrade, Option.any_eq_true, Bool.not_eq_true'] at needed
    obtain ⟨entry, found, unflagged⟩ := needed
    constructor
    · rw [Std.ExtTreeMap.mem_keys, Std.ExtTreeMap.mem_iff_contains]
      exact contains_iff_getElem?.mpr ⟨entry, found⟩
    · rw [restored.upgraded distinct member found unflagged, found]
      intro same
      have flags := congrArg (·.map ConnectedShare.validatedAncestry) same
      simp [unflagged] at flags

/-- A successful installation has the stated effect. -/
theorem Installed.effect
    {records : List ReplayValidationRecord}
    {count : Nat}
    {final : ShareChain}
    (distinct : (records.map ReplayValidationRecord.shareId).Nodup)
    (installed : Installed backend chain records count final) :
    RestoreEffect chain records count final := by
  have restored := installed.restored
  constructor
  case onlyConnected => exact restored.unchanged
  case sameIds =>
    intro id absent
    rw [restored.connected, absent]
    rfl
  case kept => exact fun _ _ => restored.kept
  case upgraded => exact fun _ member _ => restored.upgraded distinct member
  case counted =>
    have keysNodup : (changedIds chain final).Nodup :=
      Std.ExtTreeMap.nodup_keys.filter _
    have recordsNodup :
        ((records.filter chain.needsUpgrade).map
          ReplayValidationRecord.shareId).Nodup :=
      distinct.sublist (List.filter_sublist.map _)
    have samePerm :=
      (List.perm_ext_iff_of_nodup keysNodup recordsNodup).mpr
        fun _ => mem_changedIds distinct restored
    rw [installed.counted, samePerm.length_eq, List.length_map,
      List.countP_eq_length_filter]

/-- Permuted records end alike: both throw, or both install the same. -/
theorem restoreReplayValidation_perm
    (sound : Sound backend chain)
    (trusted : Trusted chain)
    (configured : chain.difficultyPolicy.isSome = true)
    {records permuted : List ReplayValidationRecord}
    (reordered : records.Perm permuted) :
    (∃ thrown thrown',
      restoreReplayValidation backend records chain = .error thrown chain ∧
      restoreReplayValidation backend permuted chain =
        .error thrown' chain) ∨
    (∃ count final,
      RestoreAccepted chain records ∧
      Installed backend chain records count final ∧
      restoreReplayValidation backend records chain = .ok count final ∧
      restoreReplayValidation backend permuted chain = .ok count final) := by
  by_cases accepted : RestoreAccepted chain records
  · obtain ⟨count, final, ran, installed⟩ :=
      restoreReplayValidation_ok sound trusted accepted
    obtain ⟨count', final', ran', installed'⟩ :=
      restoreReplayValidation_ok sound trusted (accepted.perm reordered)
    have inOrder :=
      installed'.perm reordered.symm (accepted.perm reordered).distinct
    have sameCount : count' = count := by
      rw [inOrder.counted, installed.counted]
    have sameFinal := inOrder.restored.unique installed.restored
    subst count' final'
    exact .inr ⟨count, final, accepted, installed, ran, ran'⟩
  · have refused : ¬ RestoreAccepted chain permuted :=
      fun holds => accepted (holds.perm reordered.symm)
    have nonempty : records ≠ [] := by
      rintro rfl
      exact accepted ⟨configured, by simp, by simp, by simp⟩
    have nonempty' : permuted ≠ [] := by
      rintro rfl
      exact nonempty reordered.eq_nil
    obtain ⟨thrown, ran⟩ :=
      restoreReplayValidation_error sound trusted nonempty accepted
    obtain ⟨thrown', ran'⟩ :=
      restoreReplayValidation_error sound trusted nonempty' refused
    exact .inl ⟨thrown, thrown', ran, ran'⟩

/-- Restoring the same records again, in any order, changes nothing. -/
theorem restoreReplayValidation_again
    (sound : Sound backend chain)
    (trusted : Trusted chain)
    {records permuted : List ReplayValidationRecord}
    {count : Nat}
    {final : ShareChain}
    (accepted : RestoreAccepted chain records)
    (installed : Installed backend chain records count final)
    (reordered : records.Perm permuted) :
    restoreReplayValidation backend permuted final = .ok 0 final := by
  have changes := installed.changes none
  have finalSound := changes.sound sound
  have finalTrusted :=
    changes.preserves Trusted
      (fun _ _ holds change => change.trusted (by simp) holds) trusted
  obtain ⟨acceptedAgain, restoredAgain, nothingLeft⟩ :=
    accepted.again installed.restored
  obtain ⟨count', final', ran, installed'⟩ :=
    restoreReplayValidation_ok finalSound finalTrusted
      (acceptedAgain.perm reordered)
  have inOrder :=
    installed'.perm reordered.symm (acceptedAgain.perm reordered).distinct
  have sameFinal := inOrder.restored.unique restoredAgain
  have zero := inOrder.counted
  rw [nothingLeft] at zero
  rw [ran, zero, sameFinal]

end ShareChain

/--
On every configured chain reached by any calls, also by calls that throw, a
restore is atomic, independent of the order of its records, changes exactly
the listed unvalidated shares, and is idempotent.
-/
theorem restoreReplayValidation_laws
    {backend : Backend}
    {params : SidechainParameters}
    {start chain : ShareChain}
    {ops : List ChainOp}
    (built : ShareChain.ofParameters backend params = .ok start)
    (reached : attemptOps backend ops start = chain)
    (records : List ReplayValidationRecord) :
    (∀ thrown final,
      ShareChain.restoreReplayValidation backend records chain =
        .error thrown final → final = chain) ∧
    (∀ permuted, records.Perm permuted →
      (∃ thrown thrown',
        ShareChain.restoreReplayValidation backend records chain =
          .error thrown chain ∧
        ShareChain.restoreReplayValidation backend permuted chain =
          .error thrown' chain) ∨
      (∃ count final,
        ShareChain.restoreReplayValidation backend records chain =
          .ok count final ∧
        ShareChain.restoreReplayValidation backend permuted chain =
          .ok count final)) ∧
    (∀ count final,
      ShareChain.restoreReplayValidation backend records chain =
        .ok count final →
      ShareChain.RestoreEffect chain records count final ∧
      ∀ permuted, records.Perm permuted →
        ShareChain.restoreReplayValidation backend permuted final =
          .ok 0 final) := by
  obtain ⟨policy, parameterId, rfl⟩ := ShareChain.ofParameters_eq_ok built
  obtain ⟨sound, trusted, samePolicy⟩ :=
    attemptOps_sound
      (ShareChain.Sound.empty backend (some policy) (some parameterId))
      (ShareChain.Trusted.empty (some policy) (some parameterId))
  rw [reached] at sound trusted samePolicy
  have configured : chain.difficultyPolicy.isSome = true := by
    rw [samePolicy]
    rfl
  have inAnyOrder :
      ∀ permuted, records.Perm permuted → _ := fun _ reordered =>
    ShareChain.restoreReplayValidation_perm sound trusted configured
      reordered
  refine ⟨?_, ?_, ?_⟩
  · intro thrown final failed
    rcases inAnyOrder records (.refl _) with
      ⟨_, _, refused, _⟩ | ⟨_, _, _, _, succeeded, _⟩
    · rw [refused] at failed
      cases failed
      rfl
    · rw [succeeded] at failed
      cases failed
  · intro permuted reordered
    rcases inAnyOrder permuted reordered with
      refused | ⟨count, final, _, _, first, second⟩
    · exact .inl refused
    · exact .inr ⟨count, final, first, second⟩
  · intro count final restored
    rcases inAnyOrder records (.refl _) with
      ⟨_, _, refused, _⟩ | ⟨_, _, accepted, installed, succeeded, _⟩
    · rw [refused] at restored
      cases restored
    · rw [succeeded] at restored
      cases restored
      exact ⟨installed.effect accepted.distinct,
        fun _ reordered =>
          ShareChain.restoreReplayValidation_again sound trusted accepted
            installed reordered⟩

/-- Two unvalidated shares, a root and its child. -/
def sampleReplayOps : List ChainOp :=
  [ .addUnchecked (sampleShare 0 0 0 1)
  , .addUnchecked (sampleShare 1 1 1 1) ]

def sampleValidation : CandidateValidation where
  pow := { finalHash := 0, mixHash := 0 }
  meetsShareDifficulty := true
  meetsNetworkDifficulty := true
  classification := .block

/-- Validation state of both sample shares, the child first. -/
def sampleRecords : List ReplayValidationRecord :=
  [ { shareId := 2, validation := sampleValidation }
  , { shareId := 1, validation := sampleValidation } ]

/-- The sample restore upgrades both shares; the laws hold of it. -/
theorem sampleRecords_restore :
    (finalState (ShareChain.restoreReplayValidation sampleBackend
        sampleRecords
        (attemptOps sampleBackend sampleReplayOps
          sampleStart))).validatedIds = [1, 2] ∧
      ∀ thrown final,
        ShareChain.restoreReplayValidation sampleBackend sampleRecords
            (attemptOps sampleBackend sampleReplayOps sampleStart) =
          .error thrown final →
        final = attemptOps sampleBackend sampleReplayOps sampleStart :=
  ⟨by decide +kernel,
    (restoreReplayValidation_laws sampleStart_built rfl sampleRecords).1⟩

end ZanoP2pool
