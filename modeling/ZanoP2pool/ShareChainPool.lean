import ZanoP2pool.Foundation.Lineage
import ZanoP2pool.ShareChainReachable

namespace ZanoP2pool

open Foundation

/-!
# The chain as a function of the offered records

Shares only ever offered to a chain form a pool.  The connected shares are
exactly those with an admitted lineage in the pool, the orphans are exactly the
others whose parent has none, and the tip is the greatest connected entry.  So
the pool, without any order, determines the state.
-/

namespace ShareChain

/-- Records of a chain with the given policy, judged by the branch verdict. -/
def recordGenealogy
    (policy : Option DifficultyPolicy) :
    Genealogy OrphanShare ShareId where
  idOf := OrphanShare.id
  parentOf := fun record => record.share.parentId
  root := 0
  accepts := fun below record =>
    branchVerdict policy (below.map OrphanShare.share) record.share
      record.enforceSidechainDifficulty = .ok .none

/-- A path of records in which each is admitted on the path below it. -/
abbrev RecordLineage
    (policy : Option DifficultyPolicy)
    (pool : Set OrphanShare)
    (path : List OrphanShare) :
    Prop :=
  (recordGenealogy policy).Lineage pool path

/-- Whether every record of a path establishes its proof of work. -/
def lineageValidated (path : List OrphanShare) : Bool :=
  path.all fun record =>
    establishesWork record.powValidation record.enforceSidechainDifficulty

/-- The entry of the record at the top of a lineage. -/
def lineageEntry
    (record : OrphanShare)
    (below : List OrphanShare) :
    ConnectedShare :=
  branchEntry (below.map OrphanShare.share) record.share record.id
    record.powValidation (lineageValidated (record :: below))

/--
A chain accounts for a pool: its entries come from lineages, its orphans from
the pool, and every record of the pool is connected, waiting or refused.
-/
structure Accounts
    (pool : Set OrphanShare)
    (chain : ShareChain) :
    Prop where
  connected :
    ∀ ⦃id : ShareId⦄ ⦃entry : ConnectedShare⦄,
      chain.connected[id]? = some entry →
        ∃ record below,
          RecordLineage chain.difficultyPolicy pool (record :: below) ∧
          record.id = id ∧
          entry = lineageEntry record below
  orphans :
    ∀ ⦃id : ShareId⦄ ⦃orphan : OrphanShare⦄,
      chain.orphans[id]? = some orphan → orphan ∈ pool
  everyRecord :
    ∀ ⦃record : OrphanShare⦄,
      record ∈ pool →
        (∃ entry, chain.connected[record.id]? = some entry) ∨
        chain.orphans[record.id]? = some record ∨
        (recordGenealogy chain.difficultyPolicy).Refused pool record

variable {backend : Backend} {chain : ShareChain}
variable {pool larger : Set OrphanShare}

/-- Distinct identities of a pool of records. -/
abbrev DistinctRecords
    (policy : Option DifficultyPolicy)
    (pool : Set OrphanShare) :
    Prop :=
  (recordGenealogy policy).Distinct pool

namespace Accounts

/-- A fresh chain accounts for the empty pool. -/
theorem empty
    (policy : Option DifficultyPolicy)
    (parameterId : Option Hash256) :
    Accounts ∅
      { difficultyPolicy := policy, parameterId := parameterId } where
  connected := by simp
  orphans := by simp
  everyRecord := by simp

/-- A branch of an accounting chain is the share list of a lineage. -/
theorem lineage_of_branch
    (accounts : Accounts pool chain)
    (distinct : DistinctRecords chain.difficultyPolicy pool)
    {id : ShareId}
    {branch : List Share}
    (isBranch : Branch chain.connected id branch) :
    ∃ below,
      RecordLineage chain.difficultyPolicy pool below ∧
      (recordGenealogy chain.difficultyPolicy).tip below = id ∧
      below.map OrphanShare.share = branch := by
  induction isBranch with
  | root =>
      exact ⟨[], .root, rfl, rfl⟩
  | step nonzero found _ inductionHypothesis =>
      obtain ⟨record, below, lineage, sameId, rfl⟩ := accounts.connected found
      obtain ⟨other, otherLineage, otherTip, shape⟩ := inductionHypothesis
      have lineageBelow := lineage
      cases lineage with
      | extend belowLineage _ parent _ =>
          have sameBelow : other = below :=
            otherLineage.unique distinct belowLineage
              (otherTip.trans parent)
          subst other
          exact ⟨record :: below, lineageBelow, sameId, by
            rw [List.map_cons, shape]
            rfl⟩

/-- Whether the parent side is validated can be read off the lineage. -/
theorem parentValidated_eq
    (accounts : Accounts pool chain)
    (distinct : DistinctRecords chain.difficultyPolicy pool)
    {below : List OrphanShare}
    (lineage : RecordLineage chain.difficultyPolicy pool below)
    {branch : List Share}
    (isBranch :
      Branch chain.connected
        ((recordGenealogy chain.difficultyPolicy).tip below) branch) :
    chain.parentValidated
        ((recordGenealogy chain.difficultyPolicy).tip below) =
      lineageValidated below := by
  cases lineage with
  | root => rfl
  | @extend record below belowLineage member parent accepted =>
      have nonzero : record.id ≠ 0 := distinct.notRoot member
      obtain ⟨entry, _, found, _, _⟩ := isBranch.head nonzero
      have present : chain.connected[record.id]? = some entry := found
      obtain ⟨other, otherBelow, otherLineage, sameId, rfl⟩ :=
        accounts.connected present
      have samePath :=
        otherLineage.unique distinct
          (.extend belowLineage member parent accepted) sameId
      obtain ⟨rfl, rfl⟩ := List.cons.inj samePath
      have zero := isZeroShareId_eq_false.mpr nonzero
      simp [Genealogy.tip, recordGenealogy, parentValidated, zero, find,
        present, lineageEntry, branchEntry]

section Offer

variable {record : OrphanShare}

/-- A record that its branch refuses is refused by the pool. -/
theorem refused_of_branch
    (accounts : Accounts pool chain)
    (distinct : DistinctRecords chain.difficultyPolicy pool)
    {branch : List Share}
    (isBranch : Branch chain.connected record.share.parentId branch)
    (refusal :
      branchVerdict chain.difficultyPolicy branch record.share
        record.enforceSidechainDifficulty ≠ .ok .none) :
    (recordGenealogy chain.difficultyPolicy).Refused pool record := by
  obtain ⟨below, lineage, sameTip, rfl⟩ :=
    accounts.lineage_of_branch distinct isBranch
  exact ⟨below, lineage, sameTip.symm, refusal⟩

variable (accounts : Accounts pool chain)
variable (distinct : DistinctRecords chain.difficultyPolicy (insert record pool))

include accounts distinct in
/-- Attaching a record accounts for it. -/
theorem attach
    (fresh : chain.connected[record.id]? = none)
    {branch : List Share}
    (isBranch : Branch chain.connected record.share.parentId branch)
    (admitted :
      branchVerdict chain.difficultyPolicy branch record.share
        record.enforceSidechainDifficulty = .ok .none) :
    Accounts (insert record pool) (chain.attach branch record) := by
  have contained : pool ⊆ insert record pool := Set.subset_insert record pool
  have distinctPool := distinct.subset contained
  obtain ⟨below, lineage, sameTip, rfl⟩ :=
    accounts.lineage_of_branch distinctPool isBranch
  have extended :
      RecordLineage chain.difficultyPolicy (insert record pool)
        (record :: below) :=
    .extend (lineage.mono contained) (Set.mem_insert record pool)
      sameTip.symm admitted
  have entryEq :
      chain.attachedEntry (below.map OrphanShare.share) record =
        lineageEntry record below := by
    have parentFlag :
        chain.parentValidated record.share.parentId =
          lineageValidated below := by
      rw [← sameTip] at isBranch ⊢
      exact accounts.parentValidated_eq distinctPool lineage isBranch
    rw [attachedEntry, parentFlag]
    rfl
  constructor
  case connected =>
    intro id entry found
    rcases (getElem?_insert_fresh fresh _).mp found with
      ⟨rfl, rfl⟩ | present
    · exact ⟨record, below, extended, rfl, entryEq⟩
    · obtain ⟨other, otherBelow, otherLineage, sameId, shape⟩ :=
        accounts.connected present
      exact ⟨other, otherBelow, otherLineage.mono contained, sameId, shape⟩
  case orphans =>
    intro id orphan found
    exact contained (accounts.orphans (getElem?_erase_iff.mp found).2)
  case everyRecord =>
    intro other member
    by_cases same : other.id = record.id
    · left
      rw [same]
      exact ⟨_, (getElem?_insert_fresh fresh _).mpr (.inl ⟨rfl, rfl⟩)⟩
    · have inPool : other ∈ pool :=
        member.resolve_left fun equal => same (by rw [equal])
      rcases accounts.everyRecord inPool with
        ⟨entry, found⟩ | waiting | refused
      · exact .inl ⟨entry, (getElem?_insert_fresh fresh _).mpr (.inr found)⟩
      · exact .inr (.inl (getElem?_erase_iff.mpr ⟨same, waiting⟩))
      · exact .inr (.inr (refused.mono contained))

include accounts distinct in
/-- Buffering a record accounts for it. -/
theorem buffer
    (notBuffered : chain.orphans[record.id]? = none) :
    Accounts (insert record pool) (chain.buffer record) := by
  have contained : pool ⊆ insert record pool := Set.subset_insert record pool
  constructor
  case connected =>
    intro id entry found
    obtain ⟨other, below, lineage, sameId, shape⟩ := accounts.connected found
    exact ⟨other, below, lineage.mono contained, sameId, shape⟩
  case orphans =>
    intro id orphan found
    rcases (getElem?_insert_fresh notBuffered _).mp found with
      ⟨_, rfl⟩ | present
    · exact Set.mem_insert orphan pool
    · exact contained (accounts.orphans present)
  case everyRecord =>
    intro other member
    rcases member with rfl | inPool
    · exact .inr (.inl
        ((getElem?_insert_fresh notBuffered _).mpr (.inl ⟨rfl, rfl⟩)))
    · rcases accounts.everyRecord inPool with
        connected | waiting | refused
      · exact .inl connected
      · exact .inr (.inl
          ((getElem?_insert_fresh notBuffered _).mpr (.inr waiting)))
      · exact .inr (.inr (refused.mono contained))

include accounts distinct in
/-- A record refused by its branch is accounted for by an unchanged chain. -/
theorem refuse
    {branch : List Share}
    (isBranch : Branch chain.connected record.share.parentId branch)
    (refusal :
      branchVerdict chain.difficultyPolicy branch record.share
        record.enforceSidechainDifficulty ≠ .ok .none) :
    Accounts (insert record pool) chain := by
  have contained : pool ⊆ insert record pool := Set.subset_insert record pool
  have refused :=
    accounts.refused_of_branch (distinct.subset contained) isBranch refusal
  constructor
  case connected =>
    intro id entry found
    obtain ⟨other, below, lineage, sameId, shape⟩ := accounts.connected found
    exact ⟨other, below, lineage.mono contained, sameId, shape⟩
  case orphans => exact fun _ _ found => contained (accounts.orphans found)
  case everyRecord =>
    intro other member
    rcases member with rfl | inPool
    · exact .inr (.inr (refused.mono contained))
    · exact (accounts.everyRecord inPool).imp_right
        (Or.imp_right (Genealogy.Refused.mono contained))

end Offer

/-- Changes of a promotion keep a chain accounting for its pool. -/
theorem growth
    (sound : Sound backend chain)
    (distinct : DistinctRecords chain.difficultyPolicy pool)
    (accounts : Accounts pool chain)
    {next : ShareChain}
    (growth : Growth backend none chain next) :
    Accounts pool next := by
  cases growth with
  | @attach branch record origin _ fresh isBranch admitted =>
      have buffered := origin.resolve_left (by simp)
      have inPool : insert record pool = pool :=
        Set.insert_eq_of_mem (accounts.orphans buffered)
      have attached :=
        accounts.attach (by rw [inPool]; exact distinct) fresh isBranch
          admitted
      rwa [inPool] at attached
  | buffer offered _ _ _ _ _ => cases offered
  | @discard branch id record reason buffered isBranch judged refusal =>
      have inPool := accounts.orphans buffered
      have sameId := (sound.orphanKeyed buffered).1
      have refused :=
        accounts.refused_of_branch distinct isBranch (by
          rw [judged]
          simpa using refusal)
      refine ⟨accounts.connected, ?_, ?_⟩
      · exact fun _ _ found =>
          accounts.orphans (getElem?_erase_iff.mp found).2
      · intro other member
        rcases accounts.everyRecord member with
          connected | waiting | otherRefused
        · exact .inl connected
        · by_cases same : other.id = id
          · have equal :=
              distinct.injective member inPool (same.trans sameId.symm)
            exact .inr (.inr (equal ▸ refused))
          · exact .inr (.inl (getElem?_erase_iff.mpr ⟨same, waiting⟩))
        · exact .inr (.inr otherRefused)
  | unindex _ =>
      exact ⟨accounts.connected, accounts.orphans, accounts.everyRecord⟩

/-- Every promotion keeps a chain accounting for its pool. -/
theorem growths
    (sound : Sound backend chain)
    (distinct : DistinctRecords chain.difficultyPolicy pool)
    (accounts : Accounts pool chain)
    {final : ShareChain}
    (growths : Growths backend none chain final) :
    Accounts pool final := by
  have kept :
      Sound backend final ∧ Accounts pool final ∧
        final.difficultyPolicy = chain.difficultyPolicy := by
    induction growths with
    | refl => exact ⟨sound, accounts, rfl⟩
    | tail _ growth inductionHypothesis =>
        obtain ⟨middleSound, middleAccounts, samePolicy⟩ :=
          inductionHypothesis
        refine ⟨growth.sound middleSound,
          middleAccounts.growth middleSound (by rw [samePolicy]; exact distinct)
            growth, ?_⟩
        rw [(Change.growth growth).sameConfiguration.1, samePolicy]
  exact kept.2.1

end Accounts

end ShareChain

end ZanoP2pool
