import ZanoP2pool.ShareChainExportOrder
import ZanoP2pool.ShareChainRevalidation

namespace ZanoP2pool

open Foundation

/-!
# Restoring exported validation state

The preflight of a restore works through a prospective validated set in an
order derived from heights.  Because a connected parent is exactly one height
below its child, the outcome is the same as that of a condition that does not
mention any order.  Application then installs each record in turn; it cannot
fail after a successful preflight.
-/

namespace ShareChain

variable {backend : Backend} {chain : ShareChain}

/-- What one record must satisfy, given which shares count as validated. -/
structure RecordAccepted
    (chain : ShareChain)
    (countsValidated : ShareId → Prop)
    (record : ReplayValidationRecord)
    (entry : ConnectedShare) :
    Prop where
  found : chain.connected[record.shareId]? = some entry
  agrees :
    entry.validatedAncestry = true →
      entry.powValidation = some record.validation
  structural :
    entry.validatedAncestry = false →
      structuralRejectReason chain.difficultyPolicy entry.share = .none
  parent :
    entry.validatedAncestry = false →
    entry.share.parentId ≠ 0 →
      countsValidated entry.share.parentId ∧
      ∃ parent,
        chain.connected[entry.share.parentId]? = some parent ∧
        parentLinkRejectReason entry.share parent.share = .none
  difficulty :
    entry.validatedAncestry = false →
      chain.expectedDifficultyRejectReason entry.share = .ok .none

/-- The parent checks of the preflight: a counted parent and a valid link. -/
theorem preflightParent_eq_ok
    {prospective : List ShareId}
    {share : Share} :
    preflightParent chain prospective share = .ok () ↔
      (share.parentId ≠ 0 →
        share.parentId ∈ prospective ∧
        ∃ parent,
          chain.connected[share.parentId]? = some parent ∧
          parentLinkRejectReason share parent.share = .none) := by
  unfold preflightParent
  cases zero : isZeroShareId share.parentId with
  | true =>
      refine iff_of_true rfl ?_
      intro nonzero
      exact (nonzero (isZeroShareId_iff.mp zero)).elim
  | false =>
      have nonzero := isZeroShareId_eq_false.mp zero
      rw [if_neg (by simp)]
      cases found : chain.find share.parentId with
      | none =>
          refine iff_of_false (by simp) ?_
          intro passes
          obtain ⟨_, parent, present, _⟩ := passes nonzero
          simp only [find] at found
          simp [found] at present
      | some parent =>
          have present : chain.connected[share.parentId]? = some parent := found
          simp only [except_guard_eq_ok, not_not, and_true]
          rw [present]
          constructor
          · rintro ⟨counted, linked, timely⟩ _
            refine ⟨counted, parent, rfl, ?_⟩
            rw [parentLinkRejectReason, if_neg linked]
            exact timely
          · intro passes
            obtain ⟨counted, _, same, linked⟩ := passes nonzero
            cases same
            rw [parentLinkRejectReason] at linked
            split_ifs at linked with broken
            exact ⟨counted, broken, linked⟩

/-- The difficulty check of the preflight is the difficulty rule. -/
theorem preflightDifficulty_eq_ok
    {share : Share} :
    preflightDifficulty chain share = .ok () ↔
      chain.expectedDifficultyRejectReason share = .ok .none := by
  unfold preflightDifficulty
  rw [except_bind_eq_ok]
  simp

/-- The preflight of one record checks exactly its acceptance. -/
theorem preflightRecord_eq_ok
    {prospective : List ShareId}
    {record : ReplayValidationRecord} :
    preflightRecord chain prospective record = .ok () ↔
      ∃ entry, RecordAccepted chain (· ∈ prospective) record entry := by
  unfold preflightRecord
  cases found : chain.find record.shareId with
  | none =>
      refine iff_of_false (by simp) ?_
      rintro ⟨entry, accepted⟩
      have present := accepted.found
      simp only [find] at found
      simp [found] at present
  | some entry =>
      have unique :
          ∀ other,
            RecordAccepted chain (· ∈ prospective) record other →
              other = entry := by
        intro other accepted
        have present := accepted.found
        simp only [find] at found
        rw [found] at present
        exact (Option.some.inj present).symm
      cases flagged : entry.validatedAncestry with
      | true =>
          simp only [flagged, if_true]
          constructor
          · intro passed
            split_ifs at passed with same
            obtain ⟨stored, isStored, equal⟩ := (Option.any_eq_true _ _).mp same
            rw [replayValidationEqual_iff] at equal
            subst stored
            exact ⟨entry, found, fun _ => isStored,
              by simp [flagged], by simp [flagged], by simp [flagged]⟩
          · rintro ⟨other, accepted⟩
            cases unique other accepted
            rw [if_pos]
            rw [accepted.agrees flagged]
            simp
      | false =>
          simp only [flagged, Bool.false_eq_true, if_false]
          rw [except_guard_eq_ok, not_ne_iff, except_seq_eq_ok]
          constructor
          · rintro ⟨structural, parentPassed, difficultyPassed⟩
            exact ⟨entry, found, by simp [flagged], fun _ => structural,
              fun _ => preflightParent_eq_ok.mp parentPassed,
              fun _ => preflightDifficulty_eq_ok.mp difficultyPassed⟩
          · rintro ⟨other, accepted⟩
            cases unique other accepted
            exact ⟨accepted.structural flagged,
              preflightParent_eq_ok.mpr (accepted.parent flagged),
              preflightDifficulty_eq_ok.mpr (accepted.difficulty flagged)⟩

/-- A record resolved to the share connected under its identity. -/
structure ResolvedRecord
    (chain : ShareChain)
    (item : Share × ReplayValidationRecord) :
    Prop where
  nonzero : item.2.shareId ≠ 0
  consistent : replayValidationConsistent item.2.validation = true
  connected :
    ∃ entry,
      chain.connected[item.2.shareId]? = some entry ∧
      item.1 = entry.share

/-- A resolved record carries the share of the connected entry. -/
theorem ResolvedRecord.share_eq
    {item : Share × ReplayValidationRecord}
    (resolved : ResolvedRecord chain item)
    {entry : ConnectedShare}
    (found : chain.connected[item.2.shareId]? = some entry) :
    item.1 = entry.share := by
  obtain ⟨other, otherFound, sameShare⟩ := resolved.connected
  rw [found] at otherFound
  cases otherFound
  exact sameShare

/-- Resolution of one record in a sound chain. -/
theorem resolveRecord_eq_ok
    (sound : Sound backend chain)
    {seen : List ShareId}
    {record : ReplayValidationRecord}
    {item : Share × ReplayValidationRecord} :
    resolveRecord backend chain seen record = .ok item ↔
      item.2 = record ∧ record.shareId ∉ seen ∧
        ResolvedRecord chain item := by
  unfold resolveRecord
  rw [except_guard_eq_ok, except_guard_eq_ok, except_guard_eq_ok]
  cases found : chain.find record.shareId with
  | none =>
      refine iff_of_false (by simp) ?_
      rintro ⟨rfl, _, resolved⟩
      obtain ⟨entry, present, _⟩ := resolved.connected
      simp only [find] at found
      simp [found] at present
  | some entry =>
      have present : chain.connected[record.shareId]? = some entry := found
      simp only [(sound.keyed present).2, except_bind_eq_ok,
        Except.ok.injEq, exists_eq_left', except_guard_eq_ok, ne_eq,
        not_true_eq_false, not_false_eq_true, true_and]
      constructor
      · rintro ⟨nonzero, unseen, consistent, rfl⟩
        refine ⟨rfl, unseen, ?_, by simpa using consistent, entry, present, rfl⟩
        exact isZeroShareId_eq_false.mp (Bool.not_eq_true _ ▸ nonzero)
      · rintro ⟨rfl, unseen, resolved⟩
        obtain ⟨other, otherFound, sameShare⟩ := resolved.connected
        rw [present] at otherFound
        cases otherFound
        refine ⟨?_, unseen, by simp [resolved.consistent], ?_⟩
        · rw [Bool.not_eq_true]
          exact isZeroShareId_eq_false.mpr resolved.nonzero
        · rw [← sameShare]

/-- Resolution keeps the records, which must be distinct and resolvable. -/
theorem resolveRecords_eq_ok
    (sound : Sound backend chain)
    {seen : List ShareId}
    {records : List ReplayValidationRecord}
    {resolved : List (Share × ReplayValidationRecord)} :
    resolveRecords backend chain seen records = .ok resolved ↔
      resolved.map Prod.snd = records ∧
      (∀ item ∈ resolved, ResolvedRecord chain item) ∧
      (records.map ReplayValidationRecord.shareId).Nodup ∧
      ∀ record ∈ records, record.shareId ∉ seen := by
  induction records generalizing seen resolved with
  | nil =>
      cases resolved <;> simp [resolveRecords]
  | cons record rest inductionHypothesis =>
      simp only [resolveRecords, except_bind_eq_ok, resolveRecord_eq_ok sound,
        inductionHypothesis]
      constructor
      · rintro ⟨item, ⟨rfl, unseen, first⟩, later,
          ⟨rfl, others, distinct, fresh⟩, finished⟩
        cases finished
        refine ⟨rfl, ?_, ?_, ?_⟩
        · exact List.forall_mem_cons.mpr ⟨first, others⟩
        · rw [List.map_cons, List.nodup_cons]
          refine ⟨?_, distinct⟩
          intro repeated
          obtain ⟨other, member, same⟩ := List.mem_map.mp repeated
          exact fresh other member (by simp [same])
        · refine List.forall_mem_cons.mpr ⟨unseen, ?_⟩
          intro other member seenBefore
          exact fresh other member (List.mem_cons_of_mem _ seenBefore)
      · rintro ⟨shape, allResolved, distinct, fresh⟩
        cases resolved with
        | nil => simp at shape
        | cons item later =>
            rw [List.map_cons, List.cons.injEq] at shape
            obtain ⟨rfl, rfl⟩ := shape
            obtain ⟨first, others⟩ := List.forall_mem_cons.mp allResolved
            obtain ⟨unseen, freshRest⟩ := List.forall_mem_cons.mp fresh
            rw [List.map_cons, List.nodup_cons] at distinct
            refine ⟨item, ⟨rfl, unseen, first⟩, later,
              ⟨rfl, others, distinct.2, ?_⟩, rfl⟩
            intro other member held
            rcases List.mem_cons.mp held with same | seenBefore
            · exact distinct.1 (same ▸ List.mem_map_of_mem member)
            · exact freshRest other member seenBefore

/-- The condition on a restore, stated without any order on the records. -/
structure RestoreAccepted
    (chain : ShareChain)
    (records : List ReplayValidationRecord) :
    Prop where
  configured : chain.difficultyPolicy.isSome = true
  distinct : (records.map ReplayValidationRecord.shareId).Nodup
  wellFormed :
    ∀ record ∈ records,
      record.shareId ≠ 0 ∧
      replayValidationConsistent record.validation = true
  accepted :
    ∀ record ∈ records, ∃ entry,
      RecordAccepted chain
        (fun id =>
          (∃ other, chain.connected[id]? = some other ∧
            other.validatedAncestry = true) ∨
          id ∈ records.map ReplayValidationRecord.shareId)
        record entry

/-- The condition does not depend on the order of the records. -/
theorem RestoreAccepted.perm
    {records permuted : List ReplayValidationRecord}
    (reordered : records.Perm permuted)
    (accepted : RestoreAccepted chain records) :
    RestoreAccepted chain permuted := by
  have sameIds :
      ∀ id, id ∈ records.map ReplayValidationRecord.shareId ↔
        id ∈ permuted.map ReplayValidationRecord.shareId :=
    fun _ => (reordered.map _).mem_iff
  refine ⟨accepted.configured, (reordered.map _).nodup accepted.distinct,
    ?_, ?_⟩
  · intro record member
    exact accepted.wellFormed record (reordered.mem_iff.mpr member)
  · intro record member
    obtain ⟨entry, holds⟩ :=
      accepted.accepted record (reordered.mem_iff.mpr member)
    simp only [sameIds] at holds
    exact ⟨entry, holds⟩

/-- The acceptance of a record is monotone in what counts as validated. -/
theorem RecordAccepted.mono
    {before after : ShareId → Prop}
    {record : ReplayValidationRecord}
    {entry : ConnectedShare}
    (weaker : ∀ id, before id → after id)
    (accepted : RecordAccepted chain before record entry) :
    RecordAccepted chain after record entry := by
  refine ⟨accepted.found, accepted.agrees, accepted.structural, ?_,
    accepted.difficulty⟩
  intro unflagged nonzero
  obtain ⟨counted, linked⟩ := accepted.parent unflagged nonzero
  exact ⟨weaker _ counted, linked⟩

/--
Over records sorted by height, counting only the earlier records as validated
is the same as counting all of them: a parent sorts before its child.
-/
theorem preflightRecords_eq_ok
    {prospective : List ShareId}
    {items : List (Share × ReplayValidationRecord)}
    (resolved : ∀ item ∈ items, ResolvedRecord chain item)
    (sorted : items.Pairwise recordBefore) :
    preflightRecords chain prospective (items.map Prod.snd) = .ok () ↔
      ∀ item ∈ items, ∃ entry,
        RecordAccepted chain
          (fun id =>
            id ∈ prospective ∨ id ∈ items.map fun other => other.2.shareId)
          item.2 entry := by
  induction items generalizing prospective with
  | nil =>
      simp [preflightRecords]
  | cons item rest inductionHypothesis =>
      obtain ⟨first, later⟩ := List.forall_mem_cons.mp resolved
      obtain ⟨headBefore, restSorted⟩ := List.pairwise_cons.mp sorted
      rw [List.map_cons, preflightRecords, except_seq_eq_ok,
        preflightRecord_eq_ok, inductionHypothesis later restSorted]
      constructor
      · rintro ⟨⟨entry, accepted⟩, others⟩
        refine List.forall_mem_cons.mpr ⟨⟨entry, ?_⟩, ?_⟩
        · exact accepted.mono fun _ => .inl
        · intro other member
          obtain ⟨otherEntry, otherAccepted⟩ := others other member
          refine ⟨otherEntry, otherAccepted.mono ?_⟩
          rintro id (counted | listed)
          · rcases List.mem_cons.mp counted with same | old
            · exact .inr (by simp [same])
            · exact .inl old
          · exact .inr (List.mem_cons_of_mem _ listed)
      · intro allAccepted
        obtain ⟨⟨entry, accepted⟩, others⟩ :=
          List.forall_mem_cons.mp allAccepted
        refine ⟨⟨entry, accepted.found, accepted.agrees,
          accepted.structural, ?_, accepted.difficulty⟩, ?_⟩
        · -- The parent of the first record cannot be the record of a later one.
          intro unflagged nonzero
          obtain ⟨counted, parent, parentFound, linked⟩ :=
            accepted.parent unflagged nonzero
          refine ⟨?_, parent, parentFound, linked⟩
          refine counted.resolve_right ?_
          intro listed
          obtain ⟨other, member, sameId⟩ := List.mem_map.mp listed
          have climbed :
              item.1.shareHeight.toNat = other.1.shareHeight.toNat + 1 := by
            have childShare :=
              first.share_eq accepted.found
            have parentShare :=
              (resolved other member).share_eq (sameId ▸ parentFound)
            rw [childShare, parentShare]
            exact parentLink_height linked
          rcases List.mem_cons.mp member with rfl | inRest
          · omega
          · have below := exportsBefore_height (headBefore other inRest)
            simp only at below
            omega
        · intro other member
          obtain ⟨otherEntry, otherAccepted⟩ := others other member
          refine ⟨otherEntry, otherAccepted.mono ?_⟩
          rintro id (counted | listed)
          · exact .inl (List.mem_cons_of_mem _ counted)
          · rcases List.mem_cons.mp listed with same | old
            · exact .inl (by simp [same])
            · exact .inr old

/-- Identities of the entries that are validated already. -/
def validatedIds (chain : ShareChain) : List ShareId :=
  (chain.connected.toList.filter fun item =>
    item.2.validatedAncestry).map Prod.fst

theorem mem_validatedIds
    {id : ShareId} :
    id ∈ chain.validatedIds ↔
      ∃ entry,
        chain.connected[id]? = some entry ∧
        entry.validatedAncestry = true := by
  simp [validatedIds, Std.ExtTreeMap.mem_toList_iff_getElem?_eq_some]

/-- The invariant passes of a restore succeed on a trusted chain. -/
theorem checkExisting_ok
    (sound : Sound backend chain)
    (trusted : Trusted chain)
    {item : ShareId × ConnectedShare}
    (member :
      item ∈ chain.connected.toList.filter fun item =>
        item.2.validatedAncestry) :
    checkExistingEntry backend item = .ok () ∧
      checkExistingParent chain item = .ok () := by
  obtain ⟨listed, flagged⟩ := List.mem_filter.mp member
  have found := Std.ExtTreeMap.mem_toList_iff_getElem?_eq_some.mp listed
  have entitled := trusted.validated found flagged
  obtain ⟨validation, stored, consistent⟩ := entitled.work
  constructor
  · simp [checkExistingEntry, stored, consistent, (sound.keyed found).2,
      bind, Except.bind]
  · unfold checkExistingParent
    rw [if_neg]
    have parent := entitled.parent
    unfold parentValidated at parent
    cases zero : isZeroShareId item.2.share.parentId with
    | true => simp
    | false =>
        rw [zero, if_neg (by simp)] at parent
        simp [parent]

/-- The stages of a successful preflight on a trusted chain. -/
theorem preflightRestore_stages
    (sound : Sound backend chain)
    (trusted : Trusted chain)
    {records ordered : List ReplayValidationRecord} :
    preflightRestore backend chain records = .ok ordered ↔
      chain.difficultyPolicy.isSome = true ∧
      ∃ resolved,
        resolveRecords backend chain [] records = .ok resolved ∧
        preflightRecords chain chain.validatedIds
          ((resolved.insertionSort recordBefore).map Prod.snd) = .ok () ∧
        (resolved.insertionSort recordBefore).map Prod.snd = ordered := by
  have entriesPass :
      (chain.connected.toList.filter fun item =>
        item.2.validatedAncestry).forM (checkExistingEntry backend) =
          .ok () :=
    forM_eq_ok.mpr fun _ member => (checkExisting_ok sound trusted member).1
  have parentsPass :
      (chain.connected.toList.filter fun item =>
        item.2.validatedAncestry).forM (checkExistingParent chain) =
          .ok () :=
    forM_eq_ok.mpr fun _ member => (checkExisting_ok sound trusted member).2
  unfold preflightRestore
  rw [except_guard_eq_ok, except_seq_eq_ok, except_seq_eq_ok,
    except_bind_eq_ok]
  simp only [entriesPass, parentsPass, true_and, except_seq_eq_ok]
  have configured :
      ¬ chain.difficultyPolicy.isNone = true ↔
        chain.difficultyPolicy.isSome = true := by
    cases chain.difficultyPolicy <;> simp
  rw [configured]
  simp only [pure, Except.pure, Except.ok.injEq]
  rfl

/-- The records of a sorted resolution, in the order-free form. -/
theorem sortedAccepted_iff
    {records : List ReplayValidationRecord}
    {resolved : List (Share × ReplayValidationRecord)}
    (shape : resolved.map Prod.snd = records)
    (allResolved : ∀ item ∈ resolved, ResolvedRecord chain item) :
    preflightRecords chain chain.validatedIds
        ((resolved.insertionSort recordBefore).map Prod.snd) = .ok () ↔
      ∀ record ∈ records, ∃ entry,
        RecordAccepted chain
          (fun id =>
            (∃ other, chain.connected[id]? = some other ∧
              other.validatedAncestry = true) ∨
            id ∈ records.map ReplayValidationRecord.shareId)
          record entry := by
  have sameItems := List.perm_insertionSort recordBefore resolved
  rw [preflightRecords_eq_ok
    (fun item member => allResolved item (sameItems.mem_iff.mp member))
    (List.pairwise_insertionSort recordBefore resolved)]
  have sameIds :
      ∀ id,
        id ∈ (resolved.insertionSort recordBefore).map
            (fun other => other.2.shareId) ↔
          id ∈ records.map ReplayValidationRecord.shareId := by
    intro id
    rw [(sameItems.map _).mem_iff, ← shape, List.map_map]
    rfl
  simp only [sameIds, mem_validatedIds]
  constructor
  · intro accepted record member
    rw [← shape] at member
    obtain ⟨item, itemMember, rfl⟩ := List.mem_map.mp member
    exact accepted item (sameItems.mem_iff.mpr itemMember)
  · intro accepted item member
    apply accepted
    rw [← shape]
    exact List.mem_map_of_mem (sameItems.mem_iff.mp member)

/-- Distinct well-formed records of connected shares can be resolved. -/
theorem RestoreAccepted.resolves
    {records : List ReplayValidationRecord}
    (accepted : RestoreAccepted chain records) :
    ∃ resolved : List (Share × ReplayValidationRecord),
      resolved.map Prod.snd = records ∧
      ∀ item ∈ resolved, ResolvedRecord chain item := by
  have each :
      ∀ record ∈ records, ∃ share, ResolvedRecord chain (share, record) := by
    intro record member
    obtain ⟨nonzero, consistent⟩ := accepted.wellFormed record member
    obtain ⟨entry, holds⟩ := accepted.accepted record member
    exact ⟨entry.share, nonzero, consistent, entry, holds.found, rfl⟩
  clear accepted
  induction records with
  | nil =>
      exact ⟨[], rfl, by simp⟩
  | cons record rest inductionHypothesis =>
      obtain ⟨⟨share, first⟩, others⟩ := List.forall_mem_cons.mp each
      obtain ⟨later, shape, allResolved⟩ := inductionHypothesis others
      refine ⟨(share, record) :: later, by rw [List.map_cons, shape], ?_⟩
      exact List.forall_mem_cons.mpr ⟨first, allResolved⟩

/-- The preflight succeeds exactly under the order-free condition. -/
theorem preflightRestore_eq_ok
    (sound : Sound backend chain)
    (trusted : Trusted chain)
    {records : List ReplayValidationRecord} :
    (∃ ordered, preflightRestore backend chain records = .ok ordered) ↔
      RestoreAccepted chain records := by
  simp only [preflightRestore_stages sound trusted]
  constructor
  · rintro ⟨ordered, configured, resolved, resolves, passed, _⟩
    obtain ⟨shape, allResolved, distinct, _⟩ :=
      (resolveRecords_eq_ok sound).mp resolves
    refine ⟨configured, distinct, ?_,
      (sortedAccepted_iff shape allResolved).mp passed⟩
    intro record member
    rw [← shape] at member
    obtain ⟨item, itemMember, rfl⟩ := List.mem_map.mp member
    have holds := allResolved item itemMember
    exact ⟨holds.nonzero, holds.consistent⟩
  · intro accepted
    obtain ⟨resolved, shape, allResolved⟩ := accepted.resolves
    refine ⟨_, accepted.configured, resolved, ?_,
      (sortedAccepted_iff shape allResolved).mpr accepted.accepted, rfl⟩
    exact (resolveRecords_eq_ok sound).mpr
      ⟨shape, allResolved, accepted.distinct, by simp⟩

/-- A successful preflight reorders the records and has checked each one. -/
theorem preflightRestore_ordered
    (sound : Sound backend chain)
    (trusted : Trusted chain)
    {records ordered : List ReplayValidationRecord}
    (passed : preflightRestore backend chain records = .ok ordered) :
    ordered.Perm records ∧
      preflightRecords chain chain.validatedIds ordered = .ok () := by
  obtain ⟨_, resolved, resolves, checked, rfl⟩ :=
    (preflightRestore_stages sound trusted).mp passed
  obtain ⟨shape, _⟩ := (resolveRecords_eq_ok sound).mp resolves
  refine ⟨?_, checked⟩
  rw [← shape]
  exact (List.perm_insertionSort recordBefore resolved).map Prod.snd

/-- What a restore makes of one connected entry. -/
def restoredEntry
    (records : List ReplayValidationRecord)
    (id : ShareId)
    (entry : ConnectedShare) :
    ConnectedShare :=
  if entry.validatedAncestry then
    entry
  else
    match records.find? fun record => record.shareId == id with
    | some record =>
        { entry with
          powValidation := some record.validation
          validatedAncestry := true }
    | none => entry

/-- Whether a record names an entry that is not validated yet. -/
def needsUpgrade
    (chain : ShareChain)
    (record : ReplayValidationRecord) :
    Bool :=
  (chain.connected[record.shareId]?).any fun entry =>
    !entry.validatedAncestry

/-- The chain after the records have been installed. -/
structure Restored
    (chain : ShareChain)
    (records : List ReplayValidationRecord)
    (final : ShareChain) :
    Prop where
  connected :
    ∀ id : ShareId,
      final.connected[id]? =
        (chain.connected[id]?).map (restoredEntry records id)
  unchanged : final = { chain with connected := final.connected }

/-- Installing one more record in front refines the restored entry. -/
private theorem restoredEntry_cons
    {record : ReplayValidationRecord}
    {rest : List ReplayValidationRecord}
    {id : ShareId}
    {entry : ConnectedShare} :
    restoredEntry rest id (restoredEntry [record] id entry) =
      restoredEntry (record :: rest) id entry := by
  unfold restoredEntry
  cases flagged : entry.validatedAncestry with
  | true => simp [flagged]
  | false =>
      cases same : record.shareId == id with
      | true => simp [same]
      | false => simp [same, flagged]

/-- An upgrade of another entry does not disturb the acceptance of a record. -/
theorem RecordAccepted.upgrade
    (sound : Sound backend chain)
    {countsValidated : ShareId → Prop}
    {record : ReplayValidationRecord}
    {entry upgradedEntry : ConnectedShare}
    {id : ShareId}
    {validation : CandidateValidation}
    (accepted : RecordAccepted chain countsValidated record entry)
    (found : chain.connected[id]? = some upgradedEntry)
    (other : record.shareId ≠ id) :
    RecordAccepted (chain.upgrade id upgradedEntry validation)
      countsValidated record entry := by
  refine ⟨?_, accepted.agrees, accepted.structural, ?_, ?_⟩
  · exact getElem?_insert_iff.mpr (.inr ⟨other, accepted.found⟩)
  · intro unflagged nonzero
    obtain ⟨counted, parent, parentFound, linked⟩ :=
      accepted.parent unflagged nonzero
    obtain ⟨upgraded, upgradedFound, sameShare, _⟩ :=
      Sound.found_after_upgrade found validation parentFound
    exact ⟨counted, upgraded, upgradedFound, sameShare ▸ linked⟩
  · intro unflagged
    obtain ⟨branch, isBranch, _, _⟩ := sound.rooted accepted.found
    have expected := accepted.difficulty unflagged
    rw [expectedDifficultyRejectReason_eq sound.rooted isBranch] at expected
    rw [expectedDifficultyRejectReason_eq (sound.upgrade found validation).rooted
      (Sound.branch_upgrade found validation isBranch)]
    exact expected

/-- An upgrade of another entry does not disturb the remaining preflight. -/
theorem preflightRecords_upgrade
    (sound : Sound backend chain)
    {prospective : List ShareId}
    {records : List ReplayValidationRecord}
    {id : ShareId}
    {entry : ConnectedShare}
    (found : chain.connected[id]? = some entry)
    (validation : CandidateValidation)
    (others : ∀ record ∈ records, record.shareId ≠ id)
    (passed : preflightRecords chain prospective records = .ok ()) :
    preflightRecords (chain.upgrade id entry validation) prospective
      records = .ok () := by
  induction records generalizing prospective with
  | nil => rfl
  | cons record rest inductionHypothesis =>
      rw [preflightRecords, except_seq_eq_ok, preflightRecord_eq_ok]
        at passed ⊢
      obtain ⟨⟨recordEntry, accepted⟩, later⟩ := passed
      obtain ⟨other, otherRest⟩ := List.forall_mem_cons.mp others
      exact ⟨⟨recordEntry, accepted.upgrade sound found other⟩,
        inductionHypothesis otherRest later⟩

/-- One upgrade is the restore of one record. -/
private theorem upgrade_lookup
    {record : ReplayValidationRecord}
    {entry : ConnectedShare}
    (found : chain.connected[record.shareId]? = some entry)
    (unflagged : entry.validatedAncestry = false)
    (id : ShareId) :
    (chain.upgrade record.shareId entry record.validation).connected[id]? =
      (chain.connected[id]?).map (restoredEntry [record] id) := by
  simp only [ShareChain.upgrade]
  rw [Std.ExtTreeMap.getElem?_insert]
  by_cases same : record.shareId = id
  · subst id
    simp [found, restoredEntry, unflagged]
  · have passes :
        restoredEntry [record] id = fun entry : ConnectedShare => entry := by
      funext other
      simp [restoredEntry, same]
    simp [same, passes]

/-- The result of a successful installation. -/
structure Installed
    (backend : Backend)
    (chain : ShareChain)
    (records : List ReplayValidationRecord)
    (count : Nat)
    (final : ShareChain) :
    Prop where
  changes : ∀ incoming, Changes backend incoming chain final
  restored : Restored chain records final
  counted : count = records.countP chain.needsUpgrade

/-- After a successful preflight every record can be installed. -/
theorem applyRecords_ok
    (sound : Sound backend chain)
    (configured : chain.difficultyPolicy.isSome = true)
    {prospective : List ShareId}
    {records : List ReplayValidationRecord}
    (distinct : (records.map ReplayValidationRecord.shareId).Nodup)
    (consistent :
      ∀ record ∈ records,
        replayValidationConsistent record.validation = true)
    (validated :
      ∀ id ∈ prospective, ∃ entry,
        chain.connected[id]? = some entry ∧
        entry.validatedAncestry = true)
    (passed : preflightRecords chain prospective records = .ok ()) :
    ∃ count final,
      applyRecords records chain = .ok count final ∧
      Installed backend chain records count final := by
  induction records generalizing chain prospective with
  | nil =>
      refine ⟨0, chain, rfl, fun _ => .refl, ⟨?_, rfl⟩, rfl⟩
      intro id
      have unchanged :
          restoredEntry [] id = fun entry : ConnectedShare => entry := by
        funext entry
        simp [restoredEntry]
      rw [unchanged, Option.map_id']
  | cons record rest inductionHypothesis =>
      rw [preflightRecords, except_seq_eq_ok, preflightRecord_eq_ok] at passed
      obtain ⟨⟨entry, accepted⟩, restPassed⟩ := passed
      obtain ⟨firstConsistent, restConsistent⟩ :=
        List.forall_mem_cons.mp consistent
      rw [List.map_cons, List.nodup_cons] at distinct
      have found : chain.find record.shareId = some entry := accepted.found
      have recordedId :
          ∀ later ∈ rest, later.shareId ≠ record.shareId := by
        intro later member same
        exact distinct.1 (same ▸ List.mem_map_of_mem member)
      have countedNow :
          chain.needsUpgrade record = !entry.validatedAncestry := by
        simp [needsUpgrade, accepted.found]
      cases flagged : entry.validatedAncestry with
      | true =>
          have applied : applyRecord record chain = .ok 0 chain := by
            simp [applyRecord, found, flagged]
          have stillValidated :
              ∀ id ∈ record.shareId :: prospective, ∃ other,
                chain.connected[id]? = some other ∧
                other.validatedAncestry = true :=
            List.forall_mem_cons.mpr ⟨⟨entry, found, flagged⟩, validated⟩
          obtain ⟨count, final, ran, installed⟩ :=
            inductionHypothesis sound configured distinct.2 restConsistent
              stillValidated restPassed
          refine ⟨0 + count, final, ?_, installed.changes, ⟨?_, ?_⟩, ?_⟩
          · rw [applyRecords, bind_of_ok applied, bind_of_ok ran]
            rfl
          · intro id
            rw [installed.restored.connected id]
            cases present : chain.connected[id]? with
            | none => rfl
            | some other =>
                have kept : restoredEntry [record] id other = other := by
                  by_cases same : record.shareId = id
                  · subst id
                    rw [accepted.found] at present
                    cases present
                    simp [restoredEntry, flagged]
                  · simp [restoredEntry, same]
                simp only [Option.map_some]
                rw [← restoredEntry_cons, kept]
          · exact installed.restored.unchanged
          · rw [List.countP_cons, countedNow, flagged, installed.counted]
            simp
      | false =>
          have applied :
              applyRecord record chain =
                .ok 1 (chain.upgrade record.shareId entry
                  record.validation) := by
            unfold applyRecord
            rw [get_bind_apply, found]
            simp only [flagged, Bool.false_eq_true, if_false]
            rfl
          obtain ⟨branch, isBranch, _, _⟩ := sound.rooted accepted.found
          have expected := accepted.difficulty flagged
          rw [expectedDifficultyRejectReason_eq sound.rooted isBranch]
            at expected
          have parentFlag :
              chain.parentValidated entry.share.parentId = true := by
            rw [parentValidated_iff]
            by_cases zero : entry.share.parentId = 0
            · exact .inl zero
            · exact .inr (validated _ (accepted.parent flagged zero).1)
          have stillValidated :
              ∀ id ∈ record.shareId :: prospective, ∃ other,
                (chain.upgrade record.shareId entry
                  record.validation).connected[id]? = some other ∧
                other.validatedAncestry = true := by
            intro id member
            by_cases same : id = record.shareId
            · subst id
              exact ⟨_, getElem?_insert_iff.mpr (.inl ⟨rfl, rfl⟩), rfl⟩
            · obtain ⟨other, present, otherFlag⟩ :=
                validated id ((List.mem_cons.mp member).resolve_left same)
              exact ⟨other,
                getElem?_insert_iff.mpr (.inr ⟨same, present⟩), otherFlag⟩
          obtain ⟨count, final, ran, installed⟩ :=
            inductionHypothesis (sound.upgrade accepted.found _) configured
              distinct.2 restConsistent stillValidated
              (preflightRecords_upgrade sound accepted.found _ recordedId
                restPassed)
          refine ⟨1 + count, final, ?_, ?_, ⟨?_, ?_⟩, ?_⟩
          · rw [applyRecords, bind_of_ok applied, bind_of_ok ran]
            rfl
          · intro incoming
            exact .head
              (.upgrade accepted.found flagged configured isBranch expected
                parentFlag firstConsistent)
              (installed.changes incoming)
          · intro id
            rw [installed.restored.connected id,
              upgrade_lookup accepted.found flagged id, Option.map_map]
            congr 1
            funext other
            exact restoredEntry_cons
          · exact installed.restored.unchanged
          · have sameNeeds :
                rest.countP (chain.upgrade record.shareId entry
                    record.validation).needsUpgrade =
                  rest.countP chain.needsUpgrade := by
              apply List.countP_congr
              intro later member
              have unaffected :
                  (chain.upgrade record.shareId entry
                    record.validation).connected[later.shareId]? =
                    chain.connected[later.shareId]? := by
                simp only [ShareChain.upgrade]
                rw [Std.ExtTreeMap.getElem?_insert]
                simp [Ne.symm (recordedId later member)]
              simp [needsUpgrade, unaffected]
            rw [List.countP_cons, countedNow, flagged, installed.counted,
              sameNeeds]
            simp [Nat.add_comm]

/-- The record of an identity is found whatever the order of the records. -/
theorem restoredEntry_perm
    {records permuted : List ReplayValidationRecord}
    (reordered : records.Perm permuted)
    (distinct : (records.map ReplayValidationRecord.shareId).Nodup)
    (id : ShareId) :
    restoredEntry records id = restoredEntry permuted id := by
  have sameFound :
      (records.find? fun record => record.shareId == id) =
        permuted.find? fun record => record.shareId == id := by
    have unique :
        ∀ first ∈ records, ∀ second ∈ records,
          first.shareId = second.shareId → first = second :=
      List.inj_on_of_nodup_map distinct
    cases foundFirst :
        records.find? fun record => record.shareId == id with
    | none =>
        rw [List.find?_eq_none] at foundFirst
        symm
        rw [List.find?_eq_none]
        intro record member
        exact foundFirst record (reordered.mem_iff.mpr member)
    | some first =>
        have firstMember := List.mem_of_find?_eq_some foundFirst
        have firstId := List.find?_some foundFirst
        cases foundSecond :
            permuted.find? fun record => record.shareId == id with
        | none =>
            rw [List.find?_eq_none] at foundSecond
            exact (foundSecond first (reordered.mem_iff.mp firstMember)
              firstId).elim
        | some second =>
            have secondMember :=
              reordered.mem_iff.mpr (List.mem_of_find?_eq_some foundSecond)
            have secondId := List.find?_some foundSecond
            rw [beq_iff_eq] at firstId secondId
            rw [unique first firstMember second secondMember
              (firstId.trans secondId.symm)]
  funext entry
  simp only [restoredEntry, sameFound]

/-- An installation does not depend on the order of the records. -/
theorem Installed.perm
    {records permuted : List ReplayValidationRecord}
    {count : Nat}
    {final : ShareChain}
    (reordered : records.Perm permuted)
    (distinct : (records.map ReplayValidationRecord.shareId).Nodup)
    (installed : Installed backend chain records count final) :
    Installed backend chain permuted count final := by
  refine ⟨installed.changes, ⟨?_, installed.restored.unchanged⟩, ?_⟩
  · intro id
    rw [installed.restored.connected id,
      restoredEntry_perm reordered distinct id]
  · rw [installed.counted]
    exact reordered.countP_eq _

/-- Records and chain determine the restored chain. -/
theorem Restored.unique
    {records : List ReplayValidationRecord}
    {first second : ShareChain}
    (firstRestored : Restored chain records first)
    (secondRestored : Restored chain records second) :
    first = second := by
  have sameConnected : first.connected = second.connected := by
    apply Std.ExtTreeMap.ext_getElem?
    intro id
    rw [firstRestored.connected id, secondRestored.connected id]
  rw [firstRestored.unchanged, secondRestored.unchanged, sameConnected]

/-- A restore of accepted records succeeds and installs them. -/
theorem restoreReplayValidation_ok
    (sound : Sound backend chain)
    (trusted : Trusted chain)
    {records : List ReplayValidationRecord}
    (accepted : RestoreAccepted chain records) :
    ∃ count final,
      restoreReplayValidation backend records chain = .ok count final ∧
      Installed backend chain records count final := by
  obtain ⟨ordered, passed⟩ :=
    (preflightRestore_eq_ok sound trusted).mpr accepted
  obtain ⟨reordered, checked⟩ :=
    preflightRestore_ordered sound trusted passed
  have orderedAccepted := accepted.perm reordered.symm
  obtain ⟨count, final, ran, installed⟩ :=
    applyRecords_ok sound accepted.configured orderedAccepted.distinct
      (fun record member =>
        (orderedAccepted.wellFormed record member).2)
      (fun id member => mem_validatedIds.mp member) checked
  refine ⟨count, final, ?_,
    installed.perm reordered orderedAccepted.distinct⟩
  unfold restoreReplayValidation
  cases empty : records.isEmpty with
  | true =>
      rw [List.isEmpty_iff] at empty
      subst records
      rw [List.perm_nil] at reordered
      subst ordered
      exact ran
  | false =>
      rw [if_neg (by simp), get_bind_apply, passed,
        bind_of_ok (orThrow_ok _ _)]
      exact ran

/-- A restore of any other nonempty list throws before it changes anything. -/
theorem restoreReplayValidation_error
    (sound : Sound backend chain)
    (trusted : Trusted chain)
    {records : List ReplayValidationRecord}
    (nonempty : records ≠ [])
    (refused : ¬ RestoreAccepted chain records) :
    ∃ thrown,
      restoreReplayValidation backend records chain =
        .error thrown chain := by
  have noOrder :=
    mt (preflightRestore_eq_ok sound trusted).mp refused
  unfold restoreReplayValidation
  rw [if_neg (by simpa using nonempty), get_bind_apply]
  cases passed : preflightRestore backend chain records with
  | ok ordered => exact (noOrder ⟨ordered, passed⟩).elim
  | error thrown => exact ⟨thrown, rfl⟩

/-- A restore is a sequence of elementary changes, however it ends. -/
theorem restoreReplayValidation_changes
    (sound : Sound backend chain)
    (trusted : Trusted chain)
    (records : List ReplayValidationRecord)
    (incoming : Option OrphanShare) :
    Changes backend incoming chain
      (finalState (restoreReplayValidation backend records chain)) := by
  by_cases accepted : RestoreAccepted chain records
  · obtain ⟨count, final, ran, installed⟩ :=
      restoreReplayValidation_ok sound trusted accepted
    rw [ran]
    exact installed.changes incoming
  · by_cases empty : records = []
    · subst records
      exact .refl
    · obtain ⟨thrown, ran⟩ :=
        restoreReplayValidation_error sound trusted empty accepted
      rw [ran]
      exact .refl

/-- Restoring an entry twice is restoring it once. -/
theorem restoredEntry_idem
    (records : List ReplayValidationRecord)
    (id : ShareId)
    (entry : ConnectedShare) :
    restoredEntry records id (restoredEntry records id entry) =
      restoredEntry records id entry := by
  unfold restoredEntry
  cases flagged : entry.validatedAncestry with
  | true => simp [flagged]
  | false =>
      cases records.find? fun record => record.shareId == id with
      | none => simp [flagged]
      | some record => simp

/-- Distinct records are found by their identity. -/
theorem find?_record
    {records : List ReplayValidationRecord}
    (distinct : (records.map ReplayValidationRecord.shareId).Nodup)
    {record : ReplayValidationRecord}
    (member : record ∈ records) :
    (records.find? fun other => other.shareId == record.shareId) =
      some record := by
  cases found :
      records.find? fun other => other.shareId == record.shareId with
  | none =>
      rw [List.find?_eq_none] at found
      exact (found record member (by simp)).elim
  | some other =>
      have sameId := List.find?_some found
      rw [beq_iff_eq] at sameId
      rw [List.inj_on_of_nodup_map distinct
        (List.mem_of_find?_eq_some found) member sameId]

/-- A recorded entry ends up validated with the state of its record. -/
theorem RestoreAccepted.restoredEntry
    {records : List ReplayValidationRecord}
    (accepted : RestoreAccepted chain records)
    {record : ReplayValidationRecord}
    (member : record ∈ records) :
    ∃ entry,
      chain.connected[record.shareId]? = some entry ∧
      (restoredEntry records record.shareId entry).validatedAncestry =
        true ∧
      (restoredEntry records record.shareId entry).powValidation =
        some record.validation := by
  obtain ⟨entry, holds⟩ := accepted.accepted record member
  refine ⟨entry, holds.found, ?_⟩
  unfold ShareChain.restoredEntry
  cases flagged : entry.validatedAncestry with
  | true =>
      simp [flagged, holds.agrees flagged]
  | false =>
      simp [find?_record accepted.distinct member]

/-- Restored records are accepted again and have nothing left to upgrade. -/
theorem RestoreAccepted.again
    {records : List ReplayValidationRecord}
    {final : ShareChain}
    (accepted : RestoreAccepted chain records)
    (restored : Restored chain records final) :
    RestoreAccepted final records ∧
      Restored final records final ∧
      records.countP final.needsUpgrade = 0 := by
  have validatedNow :
      ∀ record ∈ records, ∃ entry,
        final.connected[record.shareId]? = some entry ∧
        entry.validatedAncestry = true ∧
        entry.powValidation = some record.validation := by
    intro record member
    obtain ⟨entry, found, flagged, stored⟩ := accepted.restoredEntry member
    refine ⟨_, ?_, flagged, stored⟩
    rw [restored.connected, found, Option.map_some]
  refine ⟨⟨?_, accepted.distinct, accepted.wellFormed, ?_⟩, ⟨?_, rfl⟩, ?_⟩
  · rw [restored.unchanged]
    exact accepted.configured
  · intro record member
    obtain ⟨entry, found, flagged, stored⟩ := validatedNow record member
    exact ⟨entry, found, fun _ => stored, by simp [flagged],
      by simp [flagged], by simp [flagged]⟩
  · intro id
    rw [restored.connected id, Option.map_map]
    congr 1
    funext entry
    exact (restoredEntry_idem records id entry).symm
  · rw [List.countP_eq_zero]
    intro record member
    obtain ⟨entry, found, flagged, _⟩ := validatedNow record member
    simp [needsUpgrade, found, flagged]

end ShareChain

end ZanoP2pool
