import ZanoP2pool.ShareChainTip

namespace ZanoP2pool

open Foundation

/-!
# Elementary changes of the share chain

Every mutating operation of the chain is a sequence of six elementary changes.
An insertion attaches a share to a branch, buffers it as an orphan, discards an
orphan, or takes a parent out of the orphan index; besides, an entry is upgraded
to validated ancestry, or a connected subtree is removed.  Each change states
what it has checked.  The invariants that survive even an exception in the middle of an
operation are proved here, one change at a time.
-/

namespace ShareChain

/-- The entry that attaching a record on top of a branch installs. -/
def attachedEntry
    (chain : ShareChain)
    (branch : List Share)
    (record : OrphanShare) :
    ConnectedShare :=
  branchEntry branch record.share record.id record.powValidation
    (establishesWork record.powValidation record.enforceSidechainDifficulty &&
      chain.parentValidated record.share.parentId)

/-- Connect a record, no longer an orphan, and offer it as tip. -/
def attach
    (chain : ShareChain)
    (branch : List Share)
    (record : OrphanShare) :
    ShareChain :=
  { chain with
    connected :=
      chain.connected.insert record.id (chain.attachedEntry branch record)
    orphans := chain.orphans.erase record.id
    bestTipId := chain.offeredTip (chain.attachedEntry branch record) }

/-- Keep a record until its parent is connected. -/
def buffer (chain : ShareChain) (record : OrphanShare) : ShareChain :=
  { chain with
    orphans := chain.orphans.insert record.id record
    orphansByParent :=
      indexOrphan chain.orphansByParent record.share.parentId record.id }

/-- Drop an orphan. -/
def discard (chain : ShareChain) (id : ShareId) : ShareChain :=
  { chain with orphans := chain.orphans.erase id }

/-- Take a parent out of the orphan index. -/
def unindex (chain : ShareChain) (parentId : ShareId) : ShareChain :=
  { chain with orphansByParent := chain.orphansByParent.erase parentId }

/-- Install validation state in a connected entry. -/
def upgrade
    (chain : ShareChain)
    (id : ShareId)
    (entry : ConnectedShare)
    (validation : CandidateValidation) :
    ShareChain :=
  { chain with
    connected := chain.connected.insert id { entry with
      powValidation := some validation
      validatedAncestry := true } }

/-- Keep only part of the connected shares, with a new tip. -/
def retain
    (chain : ShareChain)
    (remaining : ShareMap ConnectedShare)
    (tip : Option ShareId) :
    ShareChain :=
  { chain with connected := remaining, bestTipId := tip }

/-- A record carries its own identity and passes the structural checks. -/
structure WellFormedRecord
    (backend : Backend)
    (policy : Option DifficultyPolicy)
    (record : OrphanShare) :
    Prop where
  keyed : shareId backend record.share = .ok record.id
  structural : structuralRejectReason policy record.share = .none

/--
What remains after a removal: the shares outside the removed set, which is
closed under connected children.
-/
structure Retains
    (connected remaining : ShareMap ConnectedShare)
    (removed : List ShareId) :
    Prop where
  lookup :
    ∀ ⦃id : ShareId⦄ ⦃entry : ConnectedShare⦄,
      remaining[id]? = some entry ↔
        connected[id]? = some entry ∧ id ∉ removed
  closed :
    ∀ ⦃id : ShareId⦄ ⦃entry : ConnectedShare⦄,
      connected[id]? = some entry →
      entry.share.parentId ≠ 0 →
      entry.share.parentId ∈ removed →
      id ∈ removed

/--
One elementary change of an insertion.  `incoming` is the record the running
operation was called with, if any; every other record comes out of the orphan
buffer.
-/
inductive Growth
    (backend : Backend)
    (incoming : Option OrphanShare) :
    ShareChain → ShareChain → Prop where
  | attach
      {chain : ShareChain}
      {branch : List Share}
      {record : OrphanShare} :
      incoming = some record ∨ chain.orphans[record.id]? = some record →
      WellFormedRecord backend chain.difficultyPolicy record →
      chain.connected[record.id]? = none →
      Branch chain.connected record.share.parentId branch →
      branchVerdict chain.difficultyPolicy branch record.share
        record.enforceSidechainDifficulty = .ok .none →
      Growth backend incoming chain (chain.attach branch record)
  | buffer
      {chain : ShareChain}
      {record : OrphanShare} :
      incoming = some record →
      WellFormedRecord backend chain.difficultyPolicy record →
      chain.connected[record.id]? = none →
      chain.orphans[record.id]? = none →
      record.share.parentId ≠ 0 →
      chain.connected[record.share.parentId]? = none →
      Growth backend incoming chain (chain.buffer record)
  | discard
      {chain : ShareChain}
      {branch : List Share}
      {id : ShareId}
      {record : OrphanShare}
      {reason : ShareRejectReason} :
      chain.orphans[id]? = some record →
      Branch chain.connected record.share.parentId branch →
      branchVerdict chain.difficultyPolicy branch record.share
        record.enforceSidechainDifficulty = .ok reason →
      reason ≠ .none →
      Growth backend incoming chain (chain.discard id)
  | unindex
      {chain : ShareChain}
      (parentId : ShareId) :
      Growth backend incoming chain (chain.unindex parentId)

/-- One elementary change of any operation. -/
inductive Change
    (backend : Backend)
    (incoming : Option OrphanShare) :
    ShareChain → ShareChain → Prop where
  | growth
      {chain next : ShareChain} :
      Growth backend incoming chain next →
      Change backend incoming chain next
  | upgrade
      {chain : ShareChain}
      {branch : List Share}
      {id : ShareId}
      {entry : ConnectedShare}
      {validation : CandidateValidation} :
      chain.connected[id]? = some entry →
      entry.validatedAncestry = false →
      chain.difficultyPolicy.isSome = true →
      Branch chain.connected entry.share.parentId branch →
      branchDifficultyRejectReason chain.difficultyPolicy branch
        entry.share = .ok .none →
      chain.parentValidated entry.share.parentId = true →
      replayValidationConsistent validation = true →
      Change backend incoming chain (chain.upgrade id entry validation)
  | retain
      {chain : ShareChain}
      {remaining : ShareMap ConnectedShare}
      {removed : List ShareId}
      {tip : Option ShareId} :
      Retains chain.connected remaining removed →
      IsBestTip remaining tip →
      Change backend incoming chain (chain.retain remaining tip)

/-- A sequence of elementary changes of one insertion. -/
def Growths
    (backend : Backend)
    (incoming : Option OrphanShare) :
    ShareChain → ShareChain → Prop :=
  Relation.ReflTransGen (Growth backend incoming)

/-- A sequence of elementary changes. -/
def Changes
    (backend : Backend)
    (incoming : Option OrphanShare) :
    ShareChain → ShareChain → Prop :=
  Relation.ReflTransGen (Change backend incoming)

/-- A property kept by every elementary change is kept by every sequence. -/
theorem Changes.preserves
    {backend : Backend}
    {incoming : Option OrphanShare}
    (property : ShareChain → Prop)
    (step :
      ∀ ⦃chain next : ShareChain⦄,
        property chain → Change backend incoming chain next →
          property next)
    {chain final : ShareChain}
    (changes : Changes backend incoming chain final)
    (holds : property chain) :
    property final := by
  induction changes with
  | refl => exact holds
  | tail _ change inductionHypothesis =>
      exact step inductionHypothesis change

/-- Changes of an insertion are changes. -/
theorem Growths.changes
    {backend : Backend}
    {incoming : Option OrphanShare}
    {chain final : ShareChain}
    (growths : Growths backend incoming chain final) :
    Changes backend incoming chain final := by
  induction growths with
  | refl => exact .refl
  | tail _ growth inductionHypothesis =>
      exact inductionHypothesis.tail (.growth growth)

/--
What connecting a share needs of the maps: every entry stands on a branch, the
tip is the best entry, and no orphan is connected.
-/
structure Standing (chain : ShareChain) : Prop where
  rooted : Rooted chain.connected
  bestTip : IsBestTip chain.connected chain.bestTipId
  disjoint :
    ∀ ⦃id : ShareId⦄ ⦃orphan : OrphanShare⦄,
      chain.orphans[id]? = some orphan → chain.connected[id]? = none

namespace Standing

variable {chain : ShareChain}

/-- Attaching a record to a branch that admits it keeps the maps standing. -/
theorem attach
    (standing : Standing chain)
    {branch : List Share}
    {record : OrphanShare}
    (fresh : chain.connected[record.id]? = none)
    (isBranch : Branch chain.connected record.share.parentId branch)
    (admitted :
      branchVerdict chain.difficultyPolicy branch record.share
        record.enforceSidechainDifficulty = .ok .none) :
    Standing (chain.attach branch record) := by
  obtain ⟨linked, _, fits⟩ := branchVerdict_eq_none.mp admitted
  constructor
  case rooted =>
    intro id entry found
    rcases (getElem?_insert_fresh fresh _).mp found with
      ⟨rfl, rfl⟩ | present
    · refine ⟨branch, isBranch.insert fresh _, linked, ?_⟩
      have bound := branchWorkFits_iff.mp fits
      simp only [attachedEntry, branchEntry, BitVec.toNat_ofNat]
      exact Nat.mod_eq_of_lt bound
    · obtain ⟨below, belowBranch, belowLinked, exact⟩ :=
        standing.rooted present
      exact ⟨below, belowBranch.insert fresh _, belowLinked, exact⟩
  case bestTip =>
    exact offeredTip_isBestTip standing.bestTip fresh
  case disjoint =>
    intro id orphan found
    obtain ⟨other, present⟩ := getElem?_erase_iff.mp found
    have absent := standing.disjoint present
    rw [Option.eq_none_iff_forall_ne_some] at absent ⊢
    intro entry connected
    rcases (getElem?_insert_fresh fresh _).mp connected with
      ⟨same, _⟩ | old
    · exact other same
    · exact absent entry old

/-- Dropping an orphan keeps the maps standing. -/
theorem discard
    (standing : Standing chain)
    (id : ShareId) :
    Standing (chain.discard id) where
  rooted := standing.rooted
  bestTip := standing.bestTip
  disjoint := fun _ _ found =>
    standing.disjoint (getElem?_erase_iff.mp found).2

/-- The orphan index does not take part. -/
theorem unindex
    (standing : Standing chain)
    (parentId : ShareId) :
    Standing (chain.unindex parentId) where
  rooted := standing.rooted
  bestTip := standing.bestTip
  disjoint := standing.disjoint

/-- A share whose parent is zero or connected stands on a branch. -/
theorem exists_branch
    (standing : Standing chain)
    {parentId : ShareId}
    (known :
      parentId = 0 ∨ ∃ parent, chain.connected[parentId]? = some parent) :
    ∃ branch, Branch chain.connected parentId branch := by
  by_cases zero : parentId = 0
  · subst parentId
    exact ⟨[], .root⟩
  · obtain ⟨parent, found⟩ := known.resolve_left zero
    obtain ⟨rest, below, _, _⟩ := standing.rooted found
    exact ⟨parent.share :: rest, .step zero found below⟩

end Standing

/--
The invariant of the maps and of the tip that holds at every point of every
operation, whether or not it ends in an exception.
-/
structure Sound
    (backend : Backend)
    (chain : ShareChain) :
    Prop where
  keyed :
    ∀ ⦃id : ShareId⦄ ⦃entry : ConnectedShare⦄,
      chain.connected[id]? = some entry →
        entry.id = id ∧ shareId backend entry.share = .ok id
  structural :
    ∀ ⦃id : ShareId⦄ ⦃entry : ConnectedShare⦄,
      chain.connected[id]? = some entry →
        structuralRejectReason chain.difficultyPolicy entry.share = .none
  rooted : Rooted chain.connected
  orphanKeyed :
    ∀ ⦃id : ShareId⦄ ⦃orphan : OrphanShare⦄,
      chain.orphans[id]? = some orphan →
        orphan.id = id ∧ WellFormedRecord backend chain.difficultyPolicy orphan
  orphanParent :
    ∀ ⦃id : ShareId⦄ ⦃orphan : OrphanShare⦄,
      chain.orphans[id]? = some orphan → orphan.share.parentId ≠ 0
  disjoint :
    ∀ ⦃id : ShareId⦄ ⦃orphan : OrphanShare⦄,
      chain.orphans[id]? = some orphan → chain.connected[id]? = none
  bestTip : IsBestTip chain.connected chain.bestTipId

namespace Sound

variable {backend : Backend} {chain : ShareChain}

theorem standing
    (sound : Sound backend chain) :
    Standing chain where
  rooted := sound.rooted
  bestTip := sound.bestTip
  disjoint := sound.disjoint

theorem selfKeyed
    (sound : Sound backend chain) :
    SelfKeyed chain.connected :=
  fun _ _ found => (sound.keyed found).1

/-- The empty chain is sound whatever its configuration. -/
theorem empty
    (backend : Backend)
    (policy : Option DifficultyPolicy)
    (parameterId : Option Hash256) :
    Sound backend
      { difficultyPolicy := policy, parameterId := parameterId } where
  keyed := by simp
  structural := by simp
  rooted := by simp [Rooted]
  orphanKeyed := by simp
  orphanParent := by simp
  disjoint := by simp
  bestTip := by simp [IsBestTip]

/-- A branch keeps its shares when an entry is upgraded. -/
theorem branch_upgrade
    {id : ShareId}
    {entry : ConnectedShare}
    (found : chain.connected[id]? = some entry)
    (validation : CandidateValidation)
    {parentId : ShareId}
    {branch : List Share}
    (isBranch : Branch chain.connected parentId branch) :
    Branch (chain.upgrade id entry validation).connected parentId branch := by
  refine isBranch.mono ?_
  intro other otherEntry present
  by_cases same : other = id
  · subst other
    rw [found] at present
    cases present
    exact ⟨_, getElem?_insert_iff.mpr (.inl ⟨rfl, rfl⟩), rfl⟩
  · exact ⟨otherEntry, getElem?_insert_iff.mpr (.inr ⟨same, present⟩), rfl⟩

/-- A branch outside the removed set is retained whole. -/
theorem branch_retain
    {connected remaining : ShareMap ConnectedShare}
    {removed : List ShareId}
    (retains : Retains connected remaining removed)
    {id : ShareId}
    {branch : List Share}
    (isBranch : Branch connected id branch)
    (kept : id ≠ 0 → id ∉ removed) :
    Branch remaining id branch := by
  induction isBranch with
  | root => exact .root
  | step nonzero found _ inductionHypothesis =>
      refine .step nonzero (retains.lookup.mpr ⟨found, kept nonzero⟩) ?_
      apply inductionHypothesis
      intro parentNonzero parentRemoved
      exact kept nonzero (retains.closed found parentNonzero parentRemoved)

/-- Attaching a well-formed record to a branch that admits it is sound. -/
theorem attach
    (sound : Sound backend chain)
    {branch : List Share}
    {record : OrphanShare}
    (wellFormed : WellFormedRecord backend chain.difficultyPolicy record)
    (fresh : chain.connected[record.id]? = none)
    (isBranch : Branch chain.connected record.share.parentId branch)
    (admitted :
      branchVerdict chain.difficultyPolicy branch record.share
        record.enforceSidechainDifficulty = .ok .none) :
    Sound backend (chain.attach branch record) := by
  have standing := sound.standing.attach fresh isBranch admitted
  constructor
  case keyed =>
    intro id entry found
    rcases (getElem?_insert_fresh fresh _).mp found with
      ⟨rfl, rfl⟩ | present
    · exact ⟨rfl, wellFormed.keyed⟩
    · exact sound.keyed present
  case structural =>
    intro id entry found
    rcases (getElem?_insert_fresh fresh _).mp found with
      ⟨rfl, rfl⟩ | present
    · exact wellFormed.structural
    · exact sound.structural present
  case rooted => exact standing.rooted
  case orphanKeyed =>
    intro id orphan found
    exact sound.orphanKeyed (getElem?_erase_iff.mp found).2
  case orphanParent =>
    intro id orphan found
    exact sound.orphanParent (getElem?_erase_iff.mp found).2
  case disjoint => exact standing.disjoint
  case bestTip => exact standing.bestTip

/-- Buffering a well-formed record without a connected parent is sound. -/
theorem buffer
    (sound : Sound backend chain)
    {record : OrphanShare}
    (wellFormed : WellFormedRecord backend chain.difficultyPolicy record)
    (fresh : chain.connected[record.id]? = none)
    (nonzeroParent : record.share.parentId ≠ 0) :
    Sound backend (chain.buffer record) := by
  constructor
  case keyed => exact sound.keyed
  case structural => exact sound.structural
  case rooted => exact sound.rooted
  case orphanKeyed =>
    intro id orphan found
    rcases getElem?_insert_iff.mp found with ⟨rfl, rfl⟩ | ⟨_, present⟩
    · exact ⟨rfl, wellFormed.keyed, wellFormed.structural⟩
    · exact sound.orphanKeyed present
  case orphanParent =>
    intro id orphan found
    rcases getElem?_insert_iff.mp found with ⟨rfl, rfl⟩ | ⟨_, present⟩
    · exact nonzeroParent
    · exact sound.orphanParent present
  case disjoint =>
    intro id orphan found
    rcases getElem?_insert_iff.mp found with ⟨rfl, rfl⟩ | ⟨_, present⟩
    · exact fresh
    · exact sound.disjoint present
  case bestTip => exact sound.bestTip

/-- Dropping an orphan is sound. -/
theorem discard
    (sound : Sound backend chain)
    (id : ShareId) :
    Sound backend (chain.discard id) where
  keyed := sound.keyed
  structural := sound.structural
  rooted := sound.rooted
  orphanKeyed := fun _ _ found =>
    sound.orphanKeyed (getElem?_erase_iff.mp found).2
  orphanParent := fun _ _ found =>
    sound.orphanParent (getElem?_erase_iff.mp found).2
  disjoint := fun _ _ found =>
    sound.disjoint (getElem?_erase_iff.mp found).2
  bestTip := sound.bestTip

/-- The orphan index does not take part in the invariant. -/
theorem unindex
    (sound : Sound backend chain)
    (parentId : ShareId) :
    Sound backend (chain.unindex parentId) where
  keyed := sound.keyed
  structural := sound.structural
  rooted := sound.rooted
  orphanKeyed := sound.orphanKeyed
  orphanParent := sound.orphanParent
  disjoint := sound.disjoint
  bestTip := sound.bestTip

/-- An entry after an upgrade has the share, identity and work of before. -/
theorem found_before_upgrade
    {id : ShareId}
    {entry : ConnectedShare}
    (found : chain.connected[id]? = some entry)
    {validation : CandidateValidation}
    {other : ShareId}
    {upgraded : ConnectedShare}
    (present :
      (chain.upgrade id entry validation).connected[other]? =
        some upgraded) :
    ∃ old,
      chain.connected[other]? = some old ∧
      upgraded.share = old.share ∧
      upgraded.id = old.id ∧
      upgraded.cumulativeWork = old.cumulativeWork := by
  rcases getElem?_insert_iff.mp present with ⟨rfl, rfl⟩ | ⟨_, old⟩
  · exact ⟨entry, found, rfl, rfl, rfl⟩
  · exact ⟨upgraded, old, rfl, rfl, rfl⟩

/-- An entry before an upgrade keeps its share, identity and work. -/
theorem found_after_upgrade
    {id : ShareId}
    {entry : ConnectedShare}
    (found : chain.connected[id]? = some entry)
    (validation : CandidateValidation)
    {other : ShareId}
    {old : ConnectedShare}
    (present : chain.connected[other]? = some old) :
    ∃ upgraded,
      (chain.upgrade id entry validation).connected[other]? =
        some upgraded ∧
      upgraded.share = old.share ∧
      upgraded.id = old.id ∧
      upgraded.cumulativeWork = old.cumulativeWork := by
  by_cases same : other = id
  · subst other
    rw [found] at present
    cases present
    exact ⟨_, getElem?_insert_iff.mpr (.inl ⟨rfl, rfl⟩), rfl, rfl, rfl⟩
  · exact ⟨old, getElem?_insert_iff.mpr (.inr ⟨same, present⟩),
      rfl, rfl, rfl⟩

/-- Upgrading an entry keeps its share, work and rank. -/
theorem upgrade
    (sound : Sound backend chain)
    {id : ShareId}
    {entry : ConnectedShare}
    (found : chain.connected[id]? = some entry)
    (validation : CandidateValidation) :
    Sound backend (chain.upgrade id entry validation) := by
  constructor
  case keyed =>
    intro other upgraded present
    obtain ⟨old, oldFound, sameShare, sameId, _⟩ :=
      found_before_upgrade found present
    rw [sameShare, sameId]
    exact sound.keyed oldFound
  case structural =>
    intro other upgraded present
    obtain ⟨old, oldFound, sameShare, _, _⟩ :=
      found_before_upgrade found present
    rw [sameShare]
    exact sound.structural oldFound
  case rooted =>
    intro other upgraded present
    obtain ⟨old, oldFound, sameShare, _, sameWork⟩ :=
      found_before_upgrade found present
    obtain ⟨branch, isBranch, linked, exact⟩ := sound.rooted oldFound
    rw [sameShare, sameWork]
    exact ⟨branch, branch_upgrade found validation isBranch, linked, exact⟩
  case orphanKeyed => exact sound.orphanKeyed
  case orphanParent => exact sound.orphanParent
  case disjoint =>
    intro other orphan present
    have absent := sound.disjoint present
    rw [Option.eq_none_iff_forall_ne_some] at absent ⊢
    intro upgraded connected
    obtain ⟨old, oldFound, _⟩ := found_before_upgrade found connected
    exact absent old oldFound
  case bestTip =>
    have best := sound.bestTip
    cases selected : chain.bestTipId with
    | none =>
        rw [selected] at best
        simp [best id] at found
    | some tip =>
        rw [selected] at best
        obtain ⟨tipEntry, tipFound, greatest⟩ := best
        obtain ⟨upgradedTip, tipPresent, tipShare, tipId, tipWork⟩ :=
          found_after_upgrade found validation tipFound
        simp only [ShareChain.upgrade, selected]
        refine ⟨upgradedTip, tipPresent, ?_⟩
        intro other upgraded present
        obtain ⟨old, oldFound, sameShare, sameId, sameWork⟩ :=
          found_before_upgrade found present
        have lower := greatest oldFound
        simpa [tipRank, sameShare, sameId, sameWork, tipShare, tipId,
          tipWork] using lower

/-- Removing a closed set of shares and reselecting the tip is sound. -/
theorem retain
    (sound : Sound backend chain)
    {remaining : ShareMap ConnectedShare}
    {removed : List ShareId}
    {tip : Option ShareId}
    (retains : Retains chain.connected remaining removed)
    (best : IsBestTip remaining tip) :
    Sound backend (chain.retain remaining tip) := by
  constructor
  case keyed =>
    intro id entry found
    exact sound.keyed (retains.lookup.mp found).1
  case structural =>
    intro id entry found
    exact sound.structural (retains.lookup.mp found).1
  case rooted =>
    intro id entry found
    obtain ⟨present, kept⟩ := retains.lookup.mp found
    obtain ⟨branch, isBranch, linked, exact⟩ := sound.rooted present
    refine ⟨branch, branch_retain retains isBranch ?_, linked, exact⟩
    intro nonzero parentRemoved
    exact kept (retains.closed present nonzero parentRemoved)
  case orphanKeyed => exact sound.orphanKeyed
  case orphanParent => exact sound.orphanParent
  case disjoint =>
    intro id orphan present
    have absent := sound.disjoint present
    rw [Option.eq_none_iff_forall_ne_some] at absent ⊢
    intro entry found
    exact absent entry (retains.lookup.mp found).1
  case bestTip => exact best

end Sound

/-- Every elementary change of an insertion keeps the chain sound. -/
theorem Growth.sound
    {backend : Backend}
    {incoming : Option OrphanShare}
    {chain next : ShareChain}
    (sound : Sound backend chain)
    (growth : Growth backend incoming chain next) :
    Sound backend next := by
  cases growth with
  | attach _ wellFormed fresh isBranch admitted =>
      exact sound.attach wellFormed fresh isBranch admitted
  | buffer _ wellFormed fresh _ nonzeroParent _ =>
      exact sound.buffer wellFormed fresh nonzeroParent
  | discard _ _ _ _ =>
      exact sound.discard _
  | unindex parentId =>
      exact sound.unindex parentId

/-- Every elementary change keeps the chain sound. -/
theorem Change.sound
    {backend : Backend}
    {incoming : Option OrphanShare}
    {chain next : ShareChain}
    (sound : Sound backend chain)
    (change : Change backend incoming chain next) :
    Sound backend next := by
  cases change with
  | growth growth => exact growth.sound sound
  | upgrade found _ _ _ _ _ _ => exact sound.upgrade found _
  | retain retains best => exact sound.retain retains best

/-- Every sequence of elementary changes keeps the chain sound. -/
theorem Changes.sound
    {backend : Backend}
    {incoming : Option OrphanShare}
    {chain final : ShareChain}
    (sound : Sound backend chain)
    (changes : Changes backend incoming chain final) :
    Sound backend final :=
  changes.preserves (Sound backend)
    (fun _ _ holds change => change.sound holds) sound

end ShareChain

end ZanoP2pool
