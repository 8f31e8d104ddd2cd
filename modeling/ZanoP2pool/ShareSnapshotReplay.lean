import ZanoP2pool.ShareLogReplay

namespace ZanoP2pool

open Foundation

/-!
# The persistence snapshot round trip

A snapshot lists the connected shares and the orphans of a chain.  Replaying it
in any order connects exactly the connected ones: their branches link, and no
orphan waits for any of them.  So the reloaded chain persists the same shares,
and its own snapshot is the same list.
-/

namespace ShareChain

variable {backend : Backend} {chain : ShareChain}

/-- Everything a chain holds, in the order of its snapshot. -/
def heldItems (chain : ShareChain) : List (ShareId × Share) :=
  (chain.connected.toList.map (fun item => (item.1, item.2.share)) ++
    chain.orphans.toList.map (fun item => (item.1, item.2.share))).insertionSort
      exportsBefore

/-- The records a replay of the snapshot inserts, in its order. -/
def heldRecords (chain : ShareChain) : List OrphanShare :=
  chain.heldItems.map fun item => uncheckedRecord item.2 item.1

theorem heldRecords_shares
    (chain : ShareChain) :
    chain.heldRecords.map OrphanShare.share = chain.persistenceSnapshot := by
  rw [heldRecords, List.map_map]
  rfl

/-- The records of a snapshot are the connected shares and the orphans. -/
theorem mem_heldRecords
    {record : OrphanShare} :
    record ∈ chain.heldRecords ↔
      record = unchecked record ∧
      ((∃ entry, chain.connected[record.id]? = some entry ∧
          entry.share = record.share) ∨
        ∃ orphan, chain.orphans[record.id]? = some orphan ∧
          orphan.share = record.share) := by
  simp only [heldRecords, heldItems, List.mem_map, List.mem_insertionSort,
    List.mem_append, Prod.exists, Prod.mk.injEq,
    Std.ExtTreeMap.mem_toList_iff_getElem?_eq_some]
  constructor
  · rintro ⟨id, share, ⟨_, entry, found, rfl, rfl⟩ |
      ⟨_, orphan, found, rfl, rfl⟩, rfl⟩
    · exact ⟨rfl, .inl ⟨entry, found, rfl⟩⟩
    · exact ⟨rfl, .inr ⟨orphan, found, rfl⟩⟩
  · rintro ⟨plain, ⟨entry, found, sameShare⟩ | ⟨orphan, found, sameShare⟩⟩
    · exact ⟨record.id, record.share,
        .inl ⟨record.id, entry, found, rfl, sameShare⟩, plain.symm⟩
    · exact ⟨record.id, record.share,
        .inr ⟨record.id, orphan, found, rfl, sameShare⟩, plain.symm⟩

/-- Replayed snapshot records are the snapshot records. -/
theorem mem_replayPool_held
    {records : List OrphanShare}
    (held : ∀ record ∈ records, record ∈ chain.heldRecords)
    {record : OrphanShare} :
    record ∈ replayPool records ↔ record ∈ records := by
  constructor
  · rintro ⟨source, member, rfl⟩
    rw [← (mem_heldRecords.mp (held source member)).1]
    exact member
  · intro member
    exact ⟨record, member, (mem_heldRecords.mp (held record member)).1.symm⟩

/-- No identity occurs twice in a snapshot. -/
theorem heldRecords_ids_nodup
    (sound : Sound backend chain) :
    (chain.heldRecords.map OrphanShare.id).Nodup := by
  have keys :
      (chain.heldRecords.map OrphanShare.id).Perm
        (chain.connected.keys ++ chain.orphans.keys) := by
    rw [heldRecords, List.map_map]
    refine ((List.perm_insertionSort _ _).map _).trans ?_
    rw [List.map_append, List.map_map, List.map_map,
      ← Std.ExtTreeMap.map_fst_toList_eq_keys,
      ← Std.ExtTreeMap.map_fst_toList_eq_keys]
    rfl
  rw [keys.nodup_iff]
  refine List.nodup_append.mpr
    ⟨Std.ExtTreeMap.nodup_keys, Std.ExtTreeMap.nodup_keys, ?_⟩
  rintro first inConnected second inOrphans rfl
  have connected : chain.connected.contains first = true :=
    Std.ExtTreeMap.mem_iff_contains.mp
      (Std.ExtTreeMap.mem_keys.mp inConnected)
  have buffered : chain.orphans.contains first = true :=
    Std.ExtTreeMap.mem_iff_contains.mp
      (Std.ExtTreeMap.mem_keys.mp inOrphans)
  obtain ⟨orphan, orphanFound⟩ := contains_iff_getElem?.mp buffered
  obtain ⟨entry, found⟩ := contains_iff_getElem?.mp connected
  rw [sound.disjoint orphanFound] at found
  cases found

/-- No share is held under the zero identity. -/
def Nonzero (backend : Backend) (chain : ShareChain) : Prop :=
  HoldsOnly (fun share => shareId backend share ≠ .ok 0) chain

/-- The shares of a snapshot have the identities they are held under. -/
theorem persistenceSnapshot_keyed
    (wellFormed : WellFormed backend chain) :
    List.Forall₂ (fun share id => shareId backend share = .ok id)
      chain.persistenceSnapshot (chain.heldRecords.map OrphanShare.id) := by
  rw [← heldRecords_shares, List.forall₂_map_left_iff,
    List.forall₂_map_right_iff, List.forall₂_same]
  intro record member
  obtain ⟨_, ⟨entry, found, sameShare⟩ | ⟨orphan, found, sameShare⟩⟩ :=
    mem_heldRecords.mp member
  · rw [← sameShare]
    exact (wellFormed.sound.keyed found).2
  · obtain ⟨sameId, formed⟩ := wellFormed.sound.orphanKeyed found
    rw [← sameShare, formed.keyed, sameId]

section Held

variable (wellFormed : WellFormed backend chain)
variable (nonzero : Nonzero backend chain)

include wellFormed in
/-- A snapshot record has the identity of its share and passes on its own. -/
theorem heldRecords_formed :
    ∀ record ∈ chain.heldRecords,
      WellFormedRecord backend chain.difficultyPolicy (unchecked record) := by
  intro record member
  obtain ⟨_, ⟨entry, found, sameShare⟩ | ⟨orphan, found, sameShare⟩⟩ :=
    mem_heldRecords.mp member
  · have keyed := (wellFormed.sound.keyed found).2
    have structural := wellFormed.sound.structural found
    rw [sameShare] at keyed structural
    exact ⟨keyed, structural⟩
  · obtain ⟨sameId, keyed, structural⟩ := wellFormed.sound.orphanKeyed found
    rw [sameShare] at keyed structural
    rw [sameId] at keyed
    exact ⟨keyed, structural⟩

include wellFormed nonzero in
/-- The identities of a snapshot tell its records apart. -/
theorem heldRecords_distinct :
    DistinctRecords chain.difficultyPolicy
      (replayPool chain.heldRecords) := by
  have held : ∀ record ∈ chain.heldRecords, record ∈ chain.heldRecords :=
    fun _ => id
  constructor
  · intro first firstMember second secondMember sameId
    rw [mem_replayPool_held held] at firstMember secondMember
    exact List.inj_on_of_nodup_map
      (heldRecords_ids_nodup wellFormed.sound) firstMember secondMember sameId
  · intro record member zero
    rw [mem_replayPool_held held] at member
    have keyed := (heldRecords_formed wellFormed record member).keyed
    have isZero : record.id = 0 := zero
    have keyedZero : shareId backend record.share = .ok 0 := isZero ▸ keyed
    obtain ⟨_, ⟨entry, found, sameShare⟩ | ⟨orphan, found, sameShare⟩⟩ :=
      mem_heldRecords.mp member
    · exact nonzero.1 found (sameShare ▸ keyedZero)
    · exact nonzero.2 found (sameShare ▸ keyedZero)

include wellFormed in
/-- An entry stands on its branch by the unchecked rules. -/
theorem entry_accepted
    {id : ShareId}
    {entry : ConnectedShare}
    (found : chain.connected[id]? = some entry)
    {branch : List Share}
    (isBranch : Branch chain.connected entry.share.parentId branch) :
    branchVerdict chain.difficultyPolicy branch entry.share false =
        .ok .none ∧
      entry.cumulativeWork =
        BitVec.ofNat 256 (branchWork (entry.share :: branch)) := by
  obtain ⟨other, otherBranch, linked, exactWork⟩ :=
    wellFormed.sound.rooted found
  obtain rfl := otherBranch.unique isBranch
  refine ⟨branchVerdict_eq_none.mpr ⟨linked, by simp, ?_⟩, ?_⟩
  · rw [branchWorkFits_iff, ← exactWork]
    exact entry.cumulativeWork.isLt
  · rw [← exactWork, BitVec.ofNat_toNat, BitVec.setWidth_eq]

include wellFormed in
/-- A lineage of snapshot records is a branch of the chain. -/
theorem branch_of_heldLineage
    {pool : Set OrphanShare}
    (held : ∀ record ∈ pool, record ∈ chain.heldRecords)
    (notRoot : ∀ record ∈ pool, record.id ≠ 0)
    {path : List OrphanShare}
    (lineage : RecordLineage chain.difficultyPolicy pool path) :
    Branch chain.connected
      ((recordGenealogy chain.difficultyPolicy).tip path)
      (path.map OrphanShare.share) := by
  induction lineage with
  | root => exact .root
  | @extend record below _ member parent _ inductionHypothesis =>
      obtain ⟨_, ⟨entry, found, sameShare⟩ | ⟨orphan, found, sameShare⟩⟩ :=
        mem_heldRecords.mp (held record member)
      · have sameParent :
            (recordGenealogy chain.difficultyPolicy).tip below =
              entry.share.parentId := by
          rw [sameShare]
          exact parent.symm
        rw [sameParent] at inductionHypothesis
        have stepped :=
          Branch.step (notRoot record member) found inductionHypothesis
        rw [sameShare] at stepped
        exact stepped
      · -- An orphan neither is a root nor waits for a connected share.
        have sameParent :
            orphan.share.parentId =
              (recordGenealogy chain.difficultyPolicy).tip below := by
          rw [sameShare]
          exact parent
        have missing :=
          Accounts.waits_missing wellFormed.settled
            ⟨orphan, found, sameParent⟩
        have nonzeroParent := wellFormed.sound.orphanParent found
        rw [sameParent] at nonzeroParent
        obtain ⟨entry, _, present, _, _⟩ :=
          inductionHypothesis.head nonzeroParent
        rw [missing] at present
        cases present

include wellFormed in
/-- A branch of the chain is a lineage of snapshot records. -/
theorem heldLineage_of_branch
    {id : ShareId}
    {branch : List Share}
    (isBranch : Branch chain.connected id branch) :
    ∃ path,
      RecordLineage chain.difficultyPolicy (replayPool chain.heldRecords)
        path ∧
      (recordGenealogy chain.difficultyPolicy).tip path = id ∧
      path.map OrphanShare.share = branch := by
  induction isBranch with
  | root => exact ⟨[], .root, rfl, rfl⟩
  | @step id entry branch idNonzero found below inductionHypothesis =>
      obtain ⟨path, lineage, sameTip, rfl⟩ := inductionHypothesis
      have accepted := (entry_accepted wellFormed found below).1
      have member :
          uncheckedRecord entry.share id ∈ chain.heldRecords :=
        mem_heldRecords.mpr ⟨rfl, .inl ⟨entry, found, rfl⟩⟩
      exact ⟨uncheckedRecord entry.share id :: path,
        .extend lineage ⟨_, member, rfl⟩ sameTip.symm accepted, rfl, rfl⟩

include wellFormed nonzero in
/-- No record of a snapshot is refused by the records before it. -/
theorem heldRecords_admissible
    {before after : List OrphanShare}
    {record : OrphanShare}
    (shape : chain.heldRecords = before ++ record :: after) :
    ¬ (recordGenealogy chain.difficultyPolicy).Refused (replayPool before)
      (unchecked record) := by
  rintro ⟨below, lineage, parent, rejected⟩
  have held : ∀ other ∈ before, other ∈ chain.heldRecords := by
    intro other member
    simp [shape, member]
  have distinct := heldRecords_distinct wellFormed nonzero
  have isBranch :=
    branch_of_heldLineage wellFormed
      (fun other member => held other ((mem_replayPool_held held).mp member))
      (fun other member => distinct.notRoot
        ((mem_replayPool_held fun _ held => held).mpr
          (held other ((mem_replayPool_held held).mp member))))
      lineage
  have sameParent :
      (recordGenealogy chain.difficultyPolicy).tip below =
        record.share.parentId := parent.symm
  rw [sameParent] at isBranch
  obtain ⟨_, ⟨entry, found, sameShare⟩ | ⟨orphan, found, sameShare⟩⟩ :=
    mem_heldRecords.mp
      (show record ∈ chain.heldRecords by simp [shape])
  · rw [← sameShare] at isBranch
    have accepted := (entry_accepted wellFormed found isBranch).1
    rw [sameShare] at accepted
    exact rejected accepted
  · have waits : chain.WaitsFor record.id record.share.parentId :=
      ⟨orphan, found, by rw [sameShare]⟩
    have missing := Accounts.waits_missing wellFormed.settled waits
    have nonzeroParent := wellFormed.sound.orphanParent found
    rw [sameShare] at nonzeroParent
    obtain ⟨entry, _, present, _, _⟩ := isBranch.head nonzeroParent
    rw [missing] at present
    cases present

include wellFormed nonzero in
/-- Replaying a snapshot into a fresh chain of the same policy succeeds. -/
theorem replaySnapshot_ok
    {start : ShareChain}
    (fresh : Fresh backend start)
    (samePolicy : start.difficultyPolicy = chain.difficultyPolicy) :
    ∃ reloaded,
      ShareStore.replayShares backend chain.persistenceSnapshot start =
        .ok () reloaded ∧
      reloaded.difficultyPolicy = chain.difficultyPolicy ∧
      Replaying backend (replayPool chain.heldRecords) reloaded := by
  have formed := heldRecords_formed wellFormed
  have distinct := heldRecords_distinct wellFormed nonzero
  have nodup : (chain.heldRecords.map unchecked).Nodup := by
    have ids := heldRecords_ids_nodup wellFormed.sound
    refine List.Nodup.of_map OrphanShare.id ?_
    rw [List.map_map]
    exact ids
  obtain ⟨reloaded, replayed⟩ :=
    replayShares_ok formed distinct nodup
      (fun _ _ _ shape => heldRecords_admissible wellFormed nonzero shape)
      (List.nil_append chain.heldRecords).symm samePolicy fresh.replaying
  obtain ⟨reloadedPolicy, replaying⟩ :=
    replayShares_accounts formed distinct
      (List.nil_append chain.heldRecords).symm samePolicy fresh.replaying
      replayed
  rw [heldRecords_shares] at replayed
  exact ⟨reloaded, replayed, reloadedPolicy, replaying⟩

section Reloaded

variable {reloaded : ShareChain}
variable
  (replaying : Replaying backend (replayPool chain.heldRecords) reloaded)
variable (samePolicy : reloaded.difficultyPolicy = chain.difficultyPolicy)

include wellFormed nonzero replaying samePolicy in
/-- The reloaded chain connects what the chain connected. -/
theorem reloaded_sameConnected :
    SameConnected chain reloaded := by
  have distinct := heldRecords_distinct wellFormed nonzero
  intro id
  apply Option.ext
  intro place
  rw [Option.map_eq_some_iff, Option.map_eq_some_iff]
  constructor
  · rintro ⟨found, present, rfl⟩
    obtain ⟨record, below, lineage, rfl, rfl⟩ :=
      replaying.accounts.connected present
    rw [samePolicy] at lineage
    have isBranch :=
      branch_of_heldLineage wellFormed
        (fun other member => (mem_replayPool_held fun _ held => held).mp member)
        (fun other member => distinct.notRoot member) lineage
    have notZero : record.id ≠ 0 := by
      cases lineage with
      | extend _ member _ _ => exact distinct.notRoot member
    obtain ⟨entry, rest, found, shape, below'⟩ := isBranch.head notZero
    obtain ⟨sameShare, rfl⟩ := List.cons.inj shape
    refine ⟨entry, found, ?_⟩
    have work := (entry_accepted wellFormed found below').2
    simp only [placed, lineageEntry, branchEntry]
    rw [work, ← sameShare]
  · rintro ⟨entry, found, rfl⟩
    obtain ⟨branch, isBranch, _, _⟩ := wellFormed.sound.rooted found
    obtain ⟨below, lineage, sameTip, rfl⟩ :=
      heldLineage_of_branch wellFormed isBranch
    obtain ⟨accepted, work⟩ := entry_accepted wellFormed found isBranch
    have member : uncheckedRecord entry.share id ∈ chain.heldRecords :=
      mem_heldRecords.mpr ⟨rfl, .inl ⟨entry, found, rfl⟩⟩
    have extended :
        RecordLineage reloaded.difficultyPolicy
          (replayPool chain.heldRecords)
          (uncheckedRecord entry.share id :: below) := by
      rw [samePolicy]
      exact .extend lineage ⟨_, member, rfl⟩ sameTip.symm accepted
    have connected :=
      replaying.accounts.connected_of_lineage replaying.wellFormed.sound
        replaying.wellFormed.settled (by rw [samePolicy]; exact distinct)
        extended
    refine ⟨_, connected, ?_⟩
    rw [placed, placed, work]
    rfl

include wellFormed nonzero replaying samePolicy in
/-- The reloaded chain buffers what the chain buffered. -/
theorem reloaded_sameOrphans
    (id : ShareId) :
    (reloaded.orphans[id]?).map OrphanShare.share =
      (chain.orphans[id]?).map OrphanShare.share := by
  have distinct := heldRecords_distinct wellFormed nonzero
  have orphansIff :
      ∀ (id : ShareId) (orphan : OrphanShare),
        reloaded.orphans[id]? = some orphan ↔ _ :=
    fun _ _ => replaying.accounts.orphans_iff replaying.wellFormed.sound
      replaying.wellFormed.settled (by rw [samePolicy]; exact distinct)
  apply Option.ext
  intro share
  rw [Option.map_eq_some_iff, Option.map_eq_some_iff]
  constructor
  · rintro ⟨record, found, rfl⟩
    obtain ⟨member, rfl, parentless⟩ := (orphansIff id record).mp found
    rw [mem_replayPool_held fun _ held => held] at member
    rw [samePolicy] at parentless
    obtain ⟨_, ⟨entry, connected, sameShare⟩ | ⟨orphan, present, sameShare⟩⟩ :=
      mem_heldRecords.mp member
    · obtain ⟨branch, isBranch, _, _⟩ := wellFormed.sound.rooted connected
      obtain ⟨below, lineage, sameTip, _⟩ :=
        heldLineage_of_branch wellFormed isBranch
      exact (parentless below lineage
        (by rw [sameTip, sameShare])).elim
    · exact ⟨orphan, present, sameShare⟩
  · rintro ⟨orphan, found, rfl⟩
    have member : uncheckedRecord orphan.share id ∈ chain.heldRecords :=
      mem_heldRecords.mpr ⟨rfl, .inr ⟨orphan, found, rfl⟩⟩
    refine ⟨uncheckedRecord orphan.share id,
      (orphansIff id _).mpr ⟨⟨_, member, rfl⟩, rfl, ?_⟩, rfl⟩
    rw [samePolicy]
    intro below lineage parent
    have isBranch :=
      branch_of_heldLineage wellFormed
        (fun other member => (mem_replayPool_held fun _ held => held).mp member)
        (fun other member => distinct.notRoot member) lineage
    have nonzeroParent := wellFormed.sound.orphanParent found
    have sameParent :
        orphan.share.parentId =
          (recordGenealogy chain.difficultyPolicy).tip below := parent
    have missing :=
      Accounts.waits_missing wellFormed.settled ⟨orphan, found, sameParent⟩
    rw [sameParent] at nonzeroParent
    obtain ⟨entry, _, present, _, _⟩ := isBranch.head nonzeroParent
    rw [missing] at present
    cases present

end Reloaded

end Held

/-- The shares of a map listed with their keys depend on the shares alone. -/
theorem toList_shares_congr
    {α β : Type}
    {first : ShareMap α}
    {second : ShareMap β}
    (firstShare : α → Share)
    (secondShare : β → Share)
    (same :
      ∀ id : ShareId,
        (first[id]?).map firstShare = (second[id]?).map secondShare) :
    first.toList.map (fun item => (item.1, firstShare item.2)) =
      second.toList.map (fun item => (item.1, secondShare item.2)) := by
  have sameMap :
      first.map (fun _ => firstShare) = second.map (fun _ => secondShare) := by
    apply Std.ExtTreeMap.ext_getElem?
    intro id
    rw [Std.ExtTreeMap.getElem?_map, Std.ExtTreeMap.getElem?_map]
    exact same id
  have sameList := congrArg Std.ExtTreeMap.toList sameMap
  rw [Std.ExtTreeMap.toList_map, Std.ExtTreeMap.toList_map] at sameList
  exact sameList

/-- Chains that hold the same shares have the same snapshot. -/
theorem persistenceSnapshot_congr
    {other : ShareChain}
    (sameConnected : SameConnected chain other)
    (sameOrphans :
      ∀ id : ShareId,
        (other.orphans[id]?).map OrphanShare.share =
          (chain.orphans[id]?).map OrphanShare.share) :
    other.persistenceSnapshot = chain.persistenceSnapshot := by
  have connected :=
    toList_shares_congr ConnectedShare.share ConnectedShare.share
      (fun id => by
        have shares := congrArg (Option.map Prod.fst) (sameConnected id)
        simp only [Option.map_map] at shares
        exact shares)
  have orphans :=
    toList_shares_congr OrphanShare.share OrphanShare.share sameOrphans
  simp only [persistenceSnapshot]
  rw [connected, orphans]

end ShareChain

/-- Runs given only shares with nonzero identities hold only such shares. -/
theorem runOps_nonzero
    {backend : Backend}
    {start chain : ShareChain}
    {ops : List ChainOp}
    (fresh : ShareChain.Fresh backend start)
    (identified :
      ∀ share ∈ ops.filterMap ChainOp.share?, shareId backend share ≠ .ok 0)
    (ran : runOps backend ops start = .ok () chain) :
    ShareChain.Nonzero backend chain := by
  have startHolds : ShareChain.Nonzero backend start := by
    rcases fresh with rfl | ⟨params, built⟩
    · constructor <;> simp
    · obtain ⟨policy, parameterId, rfl⟩ :=
        ShareChain.ofParameters_eq_ok built
      constructor <;> simp
  rw [← attemptOps_of_runOps ran]
  refine attemptOps_holdsOnly fresh.wellFormed.sound fresh.wellFormed.trusted
    ?_ startHolds
  intro op member share offered
  exact identified share (List.mem_filterMap.mpr ⟨op, member, offered⟩)

/--
Every reachable chain survives a rewrite of the store by its snapshot and a
load into a fresh chain; the reloaded chain would write the same file.
-/
theorem persistenceSnapshot_roundTrip
    {backend : Backend}
    {start chain : ShareChain}
    {ops : List ChainOp}
    {store : ShareStore}
    (fresh : ShareChain.Fresh backend start)
    (distinct : DistinctShareIds backend (ops.filterMap ChainOp.share?))
    (ran : runOps backend ops start = .ok () chain)
    (usable : ShareStore.Usable store)
    (repair : Bool) :
    ∃ written loaded reloaded,
      ShareStore.rewrite backend chain.persistenceSnapshot store =
        .ok () written ∧
      ShareStore.loadInto backend written repair start =
        .ok loaded reloaded ∧
      SamePersisted chain reloaded ∧
      reloaded.persistenceSnapshot = chain.persistenceSnapshot ∧
      ShareStore.rewrite backend reloaded.persistenceSnapshot written =
        .ok () written := by
  obtain ⟨wellFormed, samePolicy, _⟩ :=
    runOps_wellFormed fresh.wellFormed ran
  have nonzero := runOps_nonzero fresh distinct.nonzero ran
  obtain ⟨reloaded, replayed, reloadedPolicy, replaying⟩ :=
    ShareChain.replaySnapshot_ok wellFormed nonzero fresh samePolicy.symm
  have sameConnected :=
    ShareChain.reloaded_sameConnected wellFormed nonzero replaying
      reloadedPolicy
  have sameOrphans :=
    ShareChain.reloaded_sameOrphans wellFormed nonzero replaying
      reloadedPolicy
  have sameSnapshot :=
    ShareChain.persistenceSnapshot_congr sameConnected sameOrphans
  have keyed := ShareChain.persistenceSnapshot_keyed wellFormed
  have nodup := ShareChain.heldRecords_ids_nodup wellFormed.sound
  obtain ⟨bytes, encodes, wrote⟩ :=
    ShareStore.rewrite_encodes usable keyed nodup
  have holds :
      ShareStore.Holds backend
        { store with
          file := some
            (ShareStore.headerBytes store.expectedSidechainId ++ bytes) }
        chain.persistenceSnapshot :=
    ⟨bytes, rfl, encodes⟩
  obtain ⟨again, againEncodes, rewrote⟩ :=
    ShareStore.rewrite_encodes holds.usable keyed nodup
  obtain rfl := encodes.unique againEncodes
  obtain ⟨loaded, loads⟩ :=
    (ShareStore.loadInto_iff (.inr holds)).mpr replayed
  refine ⟨_, loaded, reloaded, wrote, loads, ⟨?_, ?_, ?_⟩,
    sameSnapshot, ?_⟩
  · intro id
    have works := congrArg (Option.map Prod.snd) (sameConnected id)
    simp only [Option.map_map] at works
    exact works
  · intro id
    have shares := congrArg Option.isSome (sameOrphans id)
    simp only [Option.isSome_map] at shares
    rw [Bool.eq_iff_iff, ShareChain.isOrphan, ShareChain.isOrphan,
      contains_iff_getElem?, contains_iff_getElem?,
      ← Option.isSome_iff_exists, ← Option.isSome_iff_exists, shares]
  · exact sameConnected.bestTip wellFormed.sound replaying.wellFormed.sound
  · rw [sameSnapshot]
    exact rewrote

/-- A root, its child, and a share that waits for a missing parent. -/
def sampleHeldOps : List ChainOp :=
  sampleOps ++ [.addUnchecked (sampleShare 9 3 4 1)]

/-- The sample chain is reloaded from its snapshot with its orphan. -/
theorem sampleHeldOps_roundTrip :
    (finalState (runOps sampleBackend sampleHeldOps sampleStart)).orphans.size =
        1 ∧
      ∃ written loaded reloaded,
        ShareStore.rewrite sampleBackend
            (finalState (runOps sampleBackend sampleHeldOps
              sampleStart)).persistenceSnapshot sampleStore =
          .ok () written ∧
        ShareStore.loadInto sampleBackend written true sampleStart =
          .ok loaded reloaded ∧
        SamePersisted
          (finalState (runOps sampleBackend sampleHeldOps sampleStart))
          reloaded ∧
        reloaded.persistenceSnapshot =
          (finalState (runOps sampleBackend sampleHeldOps
            sampleStart)).persistenceSnapshot ∧
        ShareStore.rewrite sampleBackend reloaded.persistenceSnapshot
            written = .ok () written := by
  refine ⟨by decide +kernel, ?_⟩
  exact persistenceSnapshot_roundTrip
    (.inr ⟨sampleParameters, sampleStart_built⟩) (by decide +kernel)
    (eq_ok_of_succeeds (by decide +kernel))
    (fun bytes found => by cases found) true

end ZanoP2pool
