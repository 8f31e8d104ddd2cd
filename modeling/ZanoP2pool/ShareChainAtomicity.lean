import ZanoP2pool.RetargetExact
import ZanoP2pool.ShareChainTotal

namespace ZanoP2pool

open Foundation

/-!
# Exceptions of an admission

An admission that throws before it connects its share leaves the chain alone.
After that point only an orphan that is being promoted throws, one on which no
verdict exists; the shares connected until then stay connected.
-/

namespace ShareChain

variable {backend : Backend} {chain : ShareChain}

/-- A call that throws leaves the chain as it was. -/
def Atomic
    (chain : ShareChain)
    (result : EStateM.Result Exception ShareChain AddShareResult) :
    Prop :=
  ∀ thrown final, result = .error thrown final → final = chain

/-- Shares from an identity down to its root; zero stands for no share. -/
def branchAt (id : ShareId) (branch : List Share) : List Share :=
  if id = 0 then [] else branch

/--
The orphans that the connection of a share promotes, with the branch each of them
ends: they wait for it, or for another of them, and the admission rules pass them.
-/
inductive Promotable
    (chain : ShareChain)
    (rootId : ShareId)
    (rootBranch : List Share) :
    ShareId → List Share → Prop where
  | root : Promotable chain rootId rootBranch rootId (branchAt rootId rootBranch)
  | orphan
      {parentId id : ShareId}
      {branch : List Share}
      {orphan : OrphanShare} :
      Promotable chain rootId rootBranch parentId branch →
      chain.orphans[id]? = some orphan →
      orphan.share.parentId = parentId →
      recordVerdict chain.difficultyPolicy branch orphan = .ok .none →
      Promotable chain rootId rootBranch id
        (branchAt id (orphan.share :: branch))

/--
The admission rules cannot judge an orphan on a branch: it has no work, or the
retarget it is held to cannot be computed.
-/
def Unjudged
    (policy : DifficultyPolicy)
    (branch : List Share)
    (orphan : OrphanShare) :
    Prop :=
  orphan.share.shareDifficulty = 0 ∨
    (orphan.enforceSidechainDifficulty = true ∧
      branchLinkRejectReason orphan.share branch = .none ∧
      (kHistoryMaxSize < policy.difficultyWindowShares.toNat ∨
        orphan.share.networkDifficulty = 0 ∨
        RangeTooLarge
          ((branchSamples branch).take
            policy.difficultyWindowShares.toNat)))

/-- A record would be connected, and then a promoted orphan cannot be judged. -/
structure PromotionBlocked
    (policy : DifficultyPolicy)
    (chain : ShareChain)
    (record : OrphanShare) :
    Prop where
  fresh : chain.connected[record.id]? = none
  notBuffered : chain.orphans[record.id]? = none
  structural :
    structuralRejectReason chain.difficultyPolicy record.share = .none
  blocked :
    ∃ branch,
      Branch chain.connected record.share.parentId branch ∧
      branchVerdict chain.difficultyPolicy branch record.share
        record.enforceSidechainDifficulty = .ok .none ∧
      ∃ (parentId : ShareId) (below : List Share) (id : ShareId)
          (orphan : OrphanShare),
        Promotable chain record.id (record.share :: branch) parentId below ∧
        chain.orphans[id]? = some orphan ∧
        orphan.share.parentId = parentId ∧
        Unjudged policy below orphan

section Verdicts

variable {policy : DifficultyPolicy} {branch : List Share}

/-- The retarget on a branch fails for its window, its share or its range. -/
theorem branchExpectedDifficulty_error_iff
    (usable : UsablePolicy policy)
    (networkDifficulty : Difficulty128) :
    (∃ thrown,
      branchExpectedDifficulty policy branch networkDifficulty =
        .error thrown) ↔
      kHistoryMaxSize < policy.difficultyWindowShares.toNat ∨
        networkDifficulty = 0 ∨
        RangeTooLarge
          ((branchSamples branch).take
            policy.difficultyWindowShares.toNat) := by
  by_cases reservable :
      policy.difficultyWindowShares.toNat ≤ kHistoryMaxSize
  swap
  · refine iff_of_true ⟨.logicError "vector::reserve", ?_⟩
      (.inl (Nat.lt_of_not_le reservable))
    exact branchExpectedDifficulty_tooLong reservable branch networkDifficulty
  rw [branchExpectedDifficulty_eq reservable,
    or_iff_right (Nat.not_lt.mpr reservable)]
  have parameters :
      ¬ (policy.targetShareSeconds = 0 ∨ policy.minimumShareDifficulty = 0 ∨
        policy.difficultyWindowShares < 2) := by
    rw [not_or, not_or]
    exact ⟨usable.target, usable.minimum, usable.window⟩
  by_cases zero : networkDifficulty = 0
  · refine iff_of_true ?_ (.inl zero)
    rw [zero]
    exact ⟨_, calculateNextSidechainDifficulty_zeroNetwork parameters⟩
  rw [or_iff_right zero]
  have windowed :
      ((branchSamples branch).take policy.difficultyWindowShares.toNat).take
          (min ((branchSamples branch).take
            policy.difficultyWindowShares.toNat).length
            policy.difficultyWindowShares.toNat) =
        (branchSamples branch).take policy.difficultyWindowShares.toNat := by
    rw [List.take_of_length_le]
    rw [List.length_take]
    omega
  generalize (branchSamples branch).take
    policy.difficultyWindowShares.toNat = samples at windowed
  by_cases large : RangeTooLarge samples
  · refine iff_of_true ?_ large
    exact ⟨_, calculateNextSidechainDifficulty_tooLarge parameters zero
      (by rw [windowed]; exact large)⟩
  · refine iff_of_false ?_ large
    rintro ⟨thrown, failed⟩
    by_cases empty : samples = []
    · obtain ⟨difficulty, computed, _⟩ :=
        calculateNextSidechainDifficulty_empty parameters zero
      rw [empty, computed] at failed
      cases failed
    · obtain ⟨_, _, _, _, difficulty, _, computed, _⟩ :=
        calculateNextSidechainDifficulty_exact parameters zero windowed
          empty large
      rw [computed] at failed
      cases failed

/-- The admission rules throw on an orphan exactly when they cannot judge it. -/
theorem recordVerdict_error_iff
    (usable : UsablePolicy policy)
    {orphan : OrphanShare} :
    (∃ thrown,
      recordVerdict (some policy) branch orphan = .error thrown) ↔
      Unjudged policy branch orphan := by
  by_cases zero : orphan.share.shareDifficulty = 0
  · refine iff_of_true ?_ (.inl zero)
    rw [recordVerdict, zero, shareWork_zero]
    exact ⟨_, rfl⟩
  rw [recordVerdict_eq zero, Unjudged, or_iff_right zero,
    ← branchExpectedDifficulty_error_iff usable]
  by_cases linked : branchLinkRejectReason orphan.share branch = .none
  swap
  · rw [branchVerdict_of_link linked]
    refine iff_of_false ?_ fun both => linked both.2.1
    rintro ⟨thrown, ⟨⟩⟩
  cases enforced : orphan.enforceSidechainDifficulty with
  | false =>
      refine iff_of_false ?_ ?_
      · rintro ⟨thrown, failed⟩
        simp only [branchVerdict, linked, ne_eq, not_true_eq_false, if_false,
          bind, Except.bind, Bool.false_eq_true] at failed
        cases failed
      · rintro ⟨⟨⟩, _⟩
  | true =>
      constructor
      · rintro ⟨thrown, failed⟩
        refine ⟨rfl, linked, ?_⟩
        cases computed : branchExpectedDifficulty policy branch
            orphan.share.networkDifficulty with
        | error cause => exact ⟨cause, rfl⟩
        | ok expected =>
            exfalso
            simp only [branchVerdict, linked, branchDifficultyRejectReason,
              computed, ne_eq, not_true_eq_false, if_false, if_true, bind,
              Except.bind, pure, Except.pure] at failed
            split at failed <;> cases failed
      · rintro ⟨_, _, thrown, failed⟩
        refine ⟨thrown, ?_⟩
        simp only [branchVerdict, linked, branchDifficultyRejectReason,
          failed, ne_eq, not_true_eq_false, if_false, if_true, bind,
          Except.bind]

end Verdicts

section Promoting

variable {record : OrphanShare} {branch : List Share}

/-- A connected share ends the branch of its identity. -/
theorem branch_at
    {connected : ShareMap ConnectedShare}
    {id : ShareId}
    {entry : ConnectedShare}
    (found : connected[id]? = some entry)
    (isBranch : Branch connected entry.share.parentId branch) :
    Branch connected id (branchAt id (entry.share :: branch)) := by
  by_cases zero : id = 0
  · rw [branchAt, if_pos zero, zero]
    exact .root
  · rw [branchAt, if_neg zero]
    exact .step zero found isBranch

/-- A record is the last share of the branch it ends. -/
theorem branch_attach
    (isBranch : Branch chain.connected record.share.parentId branch)
    (fresh : chain.connected[record.id]? = none) :
    Branch (chain.attach branch record).connected record.id
      (branchAt record.id (record.share :: branch)) :=
  @branch_at branch (chain.attach branch record).connected record.id
    (chain.attachedEntry branch record)
    ((getElem?_insert_fresh fresh _).mpr (.inl ⟨rfl, rfl⟩))
    (isBranch.insert fresh _)

/--
A chain in which a promotion is under way: what it still buffers was buffered
before, and waits for a promotable share once its parent is connected.
-/
structure Promoting
    (before : ShareChain)
    (rootId : ShareId)
    (rootBranch : List Share)
    (chain : ShareChain) :
    Prop where
  standing : Standing chain
  samePolicy : chain.difficultyPolicy = before.difficultyPolicy
  orphans :
    ∀ ⦃id : ShareId⦄ ⦃orphan : OrphanShare⦄,
      chain.orphans[id]? = some orphan → before.orphans[id]? = some orphan
  front :
    ∀ ⦃id : ShareId⦄ ⦃orphan : OrphanShare⦄ ⦃below : List Share⦄,
      chain.orphans[id]? = some orphan →
      chain.contains orphan.share.parentId = true →
      Branch chain.connected orphan.share.parentId below →
        Promotable before rootId rootBranch orphan.share.parentId below

/-- Connecting a share of a settled chain starts a promotion. -/
theorem Promoting.start
    (standing : Standing chain)
    (settled : Settled chain)
    (fresh : chain.connected[record.id]? = none)
    (isBranch : Branch chain.connected record.share.parentId branch)
    (judged :
      branchVerdict chain.difficultyPolicy branch record.share
        record.enforceSidechainDifficulty = .ok .none) :
    Promoting chain record.id (record.share :: branch)
      (chain.attach branch record) := by
  have drains : Drains chain (chain.attach branch record) :=
    attach_drains branch record
  refine ⟨standing.attach fresh isBranch judged, rfl, drains.orphans, ?_⟩
  intro id orphan below found connected isBelow
  -- before the call no orphan waited for a connected parent
  rcases contains_attach.mp connected with same | known
  · rw [same] at isBelow ⊢
    rw [isBelow.unique (branch_attach isBranch fresh)]
    exact .root
  · rcases settled.ready id _ ⟨orphan, drains.orphans found, rfl⟩ known with
      none | none
    · cases none
    · exact none.elim

/-- A step of a ready promotion keeps the front promotable. -/
theorem Promoting.step
    {ready : Prop}
    (holds : ready)
    {before next : ShareChain}
    {rootId : ShareId}
    {rootBranch : List Share}
    (promoting : Promoting before rootId rootBranch chain)
    (step : Promotion ready chain next) :
    Promoting before rootId rootBranch next := by
  have drains := step.drains
  have standing := step.standing promoting.standing
  have orphans :
      ∀ ⦃id : ShareId⦄ ⦃orphan : OrphanShare⦄,
        next.orphans[id]? = some orphan → before.orphans[id]? = some orphan :=
    fun _ _ found => promoting.orphans (drains.orphans found)
  cases step with
  | @connect branch promotedId promoted buffered parentConnected isBranch
      judged =>
      have fresh := promoting.standing.disjoint buffered
      refine ⟨standing, promoting.samePolicy, orphans, ?_⟩
      intro id orphan below found connected isBelow
      rcases contains_attach.mp connected with same | known
      · change orphan.share.parentId = promotedId at same
        rw [same] at isBelow ⊢
        rw [isBelow.unique (branch_attach isBranch fresh)]
        rw [promoting.samePolicy] at judged
        have promotable :
            Promotable before rootId rootBranch promotedId
              (branchAt promotedId (promoted.share :: branch)) :=
          .orphan (promoting.front buffered (parentConnected holds) isBranch)
            (promoting.orphans buffered) rfl judged
        exact promotable
      · obtain ⟨parent, parentFound⟩ := contains_iff_getElem?.mp known
        obtain ⟨older, isOlder⟩ :=
          promoting.standing.exists_branch (.inr ⟨parent, parentFound⟩)
        rw [isBelow.unique (isOlder.insert fresh _)]
        exact promoting.front (drains.orphans found) known isOlder
  | drop _ _ _ _ =>
      exact ⟨standing, promoting.samePolicy, orphans,
        fun _ _ _ found known isBelow =>
          promoting.front (drains.orphans found) known isBelow⟩
  | take parentId =>
      exact ⟨standing, promoting.samePolicy, orphans,
        fun _ _ _ found known isBelow =>
          promoting.front found known isBelow⟩

theorem Promoting.run
    {ready : Prop}
    (holds : ready)
    {before next : ShareChain}
    {rootId : ShareId}
    {rootBranch : List Share}
    (promoting : Promoting before rootId rootBranch chain)
    (steps : Promotions ready chain next) :
    Promoting before rootId rootBranch next := by
  induction steps with
  | refl => exact promoting
  | tail _ step inductionHypothesis => exact inductionHypothesis.step holds step

/-- A promotion that throws met an orphan that cannot be judged. -/
theorem promoteChildren_stuck
    {policy : DifficultyPolicy}
    (usable : UsablePolicy policy)
    (configured : chain.difficultyPolicy = some policy)
    (standing : Standing chain)
    (settled : Settled chain)
    (fresh : chain.connected[record.id]? = none)
    (isBranch : Branch chain.connected record.share.parentId branch)
    (judged :
      branchVerdict chain.difficultyPolicy branch record.share
        record.enforceSidechainDifficulty = .ok .none)
    {thrown : Exception}
    {final : ShareChain}
    (promoted :
      promoteChildren record.id (chain.attach branch record) =
        .error thrown final) :
    ∃ (parentId : ShareId) (below : List Share) (id : ShareId)
        (orphan : OrphanShare),
      Promotable chain record.id (record.share :: branch) parentId below ∧
      chain.orphans[id]? = some orphan ∧
      orphan.share.parentId = parentId ∧
      Unjudged policy below orphan := by
  have attached := standing.attach fresh isBranch judged
  have ends := promoteChildren_ends record.id attached
  have drains : Drains chain (chain.attach branch record) :=
    attach_drains branch record
  have ready :
      ListedByParent (chain.attach branch record) ∧
        (chain.attach branch record).contains record.id = true :=
    ⟨drains.listedByParent settled.listedByParent,
      contains_attach.mpr (.inl rfl)⟩
  have steps := ends.steps
  rw [promoted] at steps
  have promoting :=
    (Promoting.start standing settled fresh isBranch judged).run ready steps
  change Promoting chain record.id (record.share :: branch) final at promoting
  obtain ⟨id, orphan, stuck, connected⟩ := ends.stuck thrown final promoted
  obtain ⟨parent, parentFound⟩ :=
    contains_iff_getElem?.mp (connected ready)
  obtain ⟨below, isBelow⟩ :=
    promoting.standing.exists_branch (.inr ⟨parent, parentFound⟩)
  refine ⟨_, below, id, orphan,
    promoting.front stuck.buffered (connected ready) isBelow,
    promoting.orphans stuck.buffered, rfl, ?_⟩
  have threw := stuck.threw isBelow
  rw [promoting.samePolicy, configured] at threw
  exact (recordVerdict_error_iff usable).mp ⟨thrown, threw⟩

end Promoting

section Fates

/-- What has become of an orphan in a later state of a promotion. -/
def OrphanFate
    (id : ShareId)
    (orphan : OrphanShare)
    (chain : ShareChain) :
    Prop :=
  chain.orphans[id]? = some orphan ∨
    ∃ below reason,
      Branch chain.connected orphan.share.parentId below ∧
      recordVerdict chain.difficultyPolicy below orphan = .ok reason ∧
      (reason = .none →
        ∃ entry,
          chain.connected[id]? = some entry ∧ entry.share = orphan.share)

/-- A promotion connects, drops or keeps each orphan. -/
theorem Promotion.orphanFate
    {ready : Prop}
    {next : ShareChain}
    (step : Promotion ready chain next)
    (standing : Standing chain)
    {id : ShareId}
    {orphan : OrphanShare}
    (fate : OrphanFate id orphan chain) :
    OrphanFate id orphan next := by
  cases step with
  | @connect branch promotedId promoted buffered _ isBranch admitted =>
      have fresh := standing.disjoint buffered
      rcases fate with waiting | ⟨below, reason, isBelow, judged, connects⟩
      · by_cases same : id = promotedId
        · subst id
          rw [buffered] at waiting
          cases waiting
          refine .inr ⟨branch, .none, isBranch.insert fresh _, admitted,
            fun _ => ?_⟩
          exact ⟨_, (getElem?_insert_fresh fresh _).mpr (.inl ⟨rfl, rfl⟩),
            rfl⟩
        · exact .inl (getElem?_erase_iff.mpr ⟨same, waiting⟩)
      · refine .inr ⟨below, reason, isBelow.insert fresh _, judged, ?_⟩
        intro none
        obtain ⟨entry, found, sameShare⟩ := connects none
        exact ⟨entry, (getElem?_insert_fresh fresh _).mpr (.inr found),
          sameShare⟩
  | @drop branch dropped record reason found isBranch judged refused =>
      rcases fate with waiting | decided
      · by_cases same : id = dropped
        · rw [same, found] at waiting
          cases waiting
          exact .inr ⟨branch, reason, isBranch, judged,
            fun none => absurd none refused⟩
        · exact .inl (getElem?_erase_iff.mpr ⟨same, waiting⟩)
      · exact .inr decided
  | take parentId => exact fate

theorem Promotions.orphanFate
    {ready : Prop}
    {next : ShareChain}
    (steps : Promotions ready chain next)
    (standing : Standing chain)
    {id : ShareId}
    {orphan : OrphanShare}
    (fate : OrphanFate id orphan chain) :
    OrphanFate id orphan next := by
  induction steps with
  | refl => exact fate
  | tail earlier step inductionHypothesis =>
      exact step.orphanFate (Promotions.standing earlier standing)
        inductionHypothesis

/-- Branches survive a promotion. -/
theorem Promotions.keepsBranch
    {ready : Prop}
    {next : ShareChain}
    (steps : Promotions ready chain next)
    (standing : Standing chain)
    {id : ShareId}
    {below : List Share}
    (isBelow : Branch chain.connected id below) :
    Branch next.connected id below := by
  induction steps with
  | refl => exact isBelow
  | tail earlier step inductionHypothesis =>
      cases step with
      | connect buffered _ _ _ =>
          exact inductionHypothesis.insert
            ((Promotions.standing earlier standing).disjoint buffered) _
      | drop _ _ _ _ => exact inductionHypothesis
      | take _ => exact inductionHypothesis

/-- The end of a promotion: nothing waits, and every orphan has met its fate. -/
structure Promoted
    (before final : ShareChain)
    (rootId : ShareId)
    (rootBranch : List Share) :
    Prop where
  settled : Settled final
  samePolicy : final.difficultyPolicy = before.difficultyPolicy
  root : final.contains rootId = true
  rooted : Branch final.connected rootId (branchAt rootId rootBranch)
  fates :
    ∀ ⦃id : ShareId⦄ ⦃orphan : OrphanShare⦄,
      before.orphans[id]? = some orphan → OrphanFate id orphan final

section Promoted

variable {before final : ShareChain} {rootId : ShareId}
variable {rootBranch : List Share}

/-- An orphan whose parent is connected has been judged on its branch. -/
theorem Promoted.judged
    (promoted : Promoted before final rootId rootBranch)
    {id : ShareId}
    {orphan : OrphanShare}
    (buffered : before.orphans[id]? = some orphan)
    (connected : final.contains orphan.share.parentId = true)
    {below : List Share}
    (isBelow : Branch final.connected orphan.share.parentId below) :
    ∃ reason,
      recordVerdict before.difficultyPolicy below orphan = .ok reason ∧
      (reason = .none →
        ∃ entry,
          final.connected[id]? = some entry ∧ entry.share = orphan.share) := by
  rcases promoted.fates buffered with
    waiting | ⟨other, reason, isOther, judged, connects⟩
  · rcases promoted.settled.ready id _ ⟨orphan, waiting, rfl⟩ connected with
      none | none
    · cases none
    · exact none.elim
  · rw [isOther.unique isBelow, promoted.samePolicy] at judged
    exact ⟨reason, judged, connects⟩

/-- Promotable shares are connected in the end. -/
theorem Promoted.connected
    (promoted : Promoted before final rootId rootBranch)
    {id : ShareId}
    {below : List Share}
    (promotable : Promotable before rootId rootBranch id below) :
    final.contains id = true ∧ Branch final.connected id below := by
  induction promotable with
  | root => exact ⟨promoted.root, promoted.rooted⟩
  | @orphan parentId id branch orphan _ buffered same admitted
      inductionHypothesis =>
      subst same
      obtain ⟨parentConnected, isBranch⟩ := inductionHypothesis
      obtain ⟨reason, judged, connects⟩ :=
        promoted.judged buffered parentConnected isBranch
      rw [admitted] at judged
      cases judged
      obtain ⟨entry, found, sameShare⟩ := connects rfl
      rw [← sameShare] at isBranch ⊢
      exact ⟨contains_iff_getElem?.mpr ⟨entry, found⟩,
        branch_at found isBranch⟩

/-- A promotion that returns has met no orphan that cannot be judged. -/
theorem Promoted.not_unjudged
    {policy : DifficultyPolicy}
    (usable : UsablePolicy policy)
    (configured : before.difficultyPolicy = some policy)
    (promoted : Promoted before final rootId rootBranch)
    {parentId id : ShareId}
    {below : List Share}
    {orphan : OrphanShare}
    (promotable : Promotable before rootId rootBranch parentId below)
    (buffered : before.orphans[id]? = some orphan)
    (waits : orphan.share.parentId = parentId) :
    ¬ Unjudged policy below orphan := by
  intro unjudged
  subst waits
  obtain ⟨parentConnected, isBelow⟩ := promoted.connected promotable
  obtain ⟨reason, judged, _⟩ :=
    promoted.judged buffered parentConnected isBelow
  obtain ⟨thrown, failed⟩ := (recordVerdict_error_iff usable).mpr unjudged
  rw [configured, failed] at judged
  cases judged

end Promoted

/-- A promotion that returns has ended. -/
theorem Promoted.of_returned
    {record : OrphanShare}
    {branch : List Share}
    (standing : Standing chain)
    (settled : Settled chain)
    (fresh : chain.connected[record.id]? = none)
    (notBuffered : chain.orphans[record.id]? = none)
    (isBranch : Branch chain.connected record.share.parentId branch)
    (judged :
      branchVerdict chain.difficultyPolicy branch record.share
        record.enforceSidechainDifficulty = .ok .none)
    {count : Nat}
    {final : ShareChain}
    (promoted :
      promoteChildren record.id (chain.attach branch record) =
        .ok count final) :
    Promoted chain final record.id (record.share :: branch) := by
  have attached := standing.attach fresh isBranch judged
  have steps := (promoteChildren_ends record.id attached).steps
  rw [promoted] at steps
  constructor
  case settled =>
    exact settled.promoted standing fresh notBuffered isBranch judged promoted
  case samePolicy => exact steps.samePolicy
  case root =>
    exact steps.drains.connected _ (contains_attach.mpr (.inl rfl))
  case rooted =>
    exact steps.keepsBranch attached (branch_attach isBranch fresh)
  case fates =>
    intro id orphan found
    refine steps.orphanFate attached (.inl ?_)
    refine getElem?_erase_iff.mpr ⟨?_, found⟩
    rintro rfl
    rw [notBuffered] at found
    cases found

end Fates

/-- An insertion is atomic exactly when its promotion is not blocked. -/
theorem AddOutcome.atomic_iff
    {policy : DifficultyPolicy}
    (usable : UsablePolicy policy)
    (configured : chain.difficultyPolicy = some policy)
    (standing : Standing chain)
    (settled : Settled chain)
    {record : OrphanShare}
    {result : EStateM.Result Exception ShareChain AddShareResult}
    (outcome : AddOutcome backend chain record result) :
    Atomic chain result ↔
      ¬ PromotionBlocked policy chain record := by
  have returns
      {value : AddShareResult}
      {final : ShareChain} :
      Atomic chain (.ok value final) := by
    rintro _ _ ⟨⟩
  cases outcome with
  | duplicate known =>
      refine iff_of_true returns ?_
      intro blocked
      have unknown : (chain.contains record.id || chain.isOrphan record.id) =
          false := by
        rw [Bool.or_eq_false_iff]
        exact ⟨contains_eq_false_iff.mpr blocked.fresh,
          contains_eq_false_iff.mpr blocked.notBuffered⟩
      rw [unknown] at known
      cases known
  | malformed _ _ structural refused =>
      refine iff_of_true returns ?_
      intro blocked
      exact refused (structural.symm.trans blocked.structural)
  | buffered _ _ _ nonzero missing =>
      refine iff_of_true returns ?_
      intro blocked
      obtain ⟨branch, isBranch, _⟩ := blocked.blocked
      obtain ⟨parent, _, found, _⟩ := isBranch.head nonzero
      rw [missing] at found
      cases found
  | threw isBranch judged =>
      refine iff_of_true ?_ ?_
      · rintro _ _ ⟨⟩
        rfl
      · intro blocked
        obtain ⟨branch, isOther, admitted, _⟩ := blocked.blocked
        rw [isOther.unique isBranch, judged] at admitted
        cases admitted
  | refused _ _ _ isBranch judged refused =>
      refine iff_of_true returns ?_
      intro blocked
      obtain ⟨branch, isOther, admitted, _⟩ := blocked.blocked
      rw [isOther.unique isBranch, judged] at admitted
      cases admitted
      exact refused rfl
  | connected fresh notBuffered _ isBranch judged promoted =>
      refine iff_of_true returns ?_
      intro blocked
      obtain ⟨other, isOther, _, parentId, below, id, orphan, promotable,
        buffered, waits, unjudged⟩ := blocked.blocked
      cases isOther.unique isBranch
      have ended :=
        Promoted.of_returned standing settled fresh notBuffered isBranch
          judged promoted
      exact ended.not_unjudged usable configured promotable buffered waits
        unjudged
  | @interrupted branch thrown final fresh notBuffered wellFormed isBranch
      judged promoted =>
      have stuck :=
        promoteChildren_stuck usable configured standing settled fresh
          isBranch judged promoted
      refine iff_of_false ?_ (not_not.mpr ⟨fresh, notBuffered,
        wellFormed.structural, branch, isBranch, judged, stuck⟩)
      -- the record itself stays connected
      intro atomic
      have steps :=
        (promoteChildren_ends record.id
          (standing.attach fresh isBranch judged)).steps
      rw [promoted] at steps
      have kept : final.contains record.id = true :=
        steps.drains.connected _ (contains_attach.mpr (.inl rfl))
      rw [atomic thrown final rfl] at kept
      obtain ⟨entry, found⟩ := contains_iff_getElem?.mp kept
      rw [fresh] at found
      cases found

end ShareChain

open ShareChain in
/--
A submission or an unchecked insertion into a configured chain that satisfies the
representation invariant is atomic exactly when the share it connects, if any, does
not promote towards an orphan that the admission rules cannot judge.
-/
theorem admission_atomic_iff
    {backend : Backend}
    {params : SidechainParameters}
    {start chain : ShareChain}
    {policy : DifficultyPolicy}
    (built : ofParameters backend params = .ok start)
    (policied : start.difficultyPolicy = some policy)
    (configured : chain.difficultyPolicy = some policy)
    (invariant : RepresentationInvariant backend chain) :
    (∀ (share : Share) (trustedContext : ShareWorkContext) (now : UInt64)
        (mode : ProgPowZContextMode),
      Atomic chain
          (submitShare backend share trustedContext now mode chain) ↔
        ∀ record,
          vetSubmission backend (some policy) share trustedContext now mode =
            some record →
          ¬ PromotionBlocked policy chain record) ∧
    (∀ share : Share,
      Atomic chain (addShareUnchecked backend share chain) ↔
        ∀ id, shareId backend share = .ok id →
          ¬ PromotionBlocked policy chain (uncheckedRecord share id)) := by
  have usable := usable_of_ofParameters built policied
  have standing := invariant.standing
  have settled := invariant.settled
  constructor
  · intro share trustedContext now mode
    rcases submitShare_outcome standing share trustedContext now mode with
      ⟨record, vetted, outcome⟩ | ⟨unvetted, unchanged⟩
    · rw [outcome.atomic_iff usable configured standing settled]
      rw [configured] at vetted
      rw [vetted]
      simp only [Option.some.injEq, forall_eq']
    · rw [configured] at unvetted
      refine iff_of_true ?_ ?_
      · intro thrown final threw
        rcases unchanged with ⟨other, same⟩ | ⟨value, same, _⟩
        · rw [same] at threw
          cases threw
          rfl
        · rw [same] at threw
          cases threw
      · intro record vetted
        rw [unvetted] at vetted
        cases vetted
  · intro share
    rcases addShareUnchecked_outcome standing share with
      ⟨id, keyed, outcome⟩ | ⟨thrown, unkeyed, same⟩
    · rw [outcome.atomic_iff usable configured standing settled, keyed]
      simp only [Except.ok.injEq, forall_eq']
    · refine iff_of_true ?_ ?_
      · intro other final threw
        rw [same] at threw
        cases threw
        rfl
      · intro id keyed
        rw [unkeyed] at keyed
        cases keyed

/-- A share of the sample chain with a timestamp of its own. -/
def timedShare
    (parentId : ShareId)
    (shareHeight nonce timestamp : UInt64) :
    Share :=
  { sampleShare parentId shareHeight nonce 1 with timestamp }

/-- The root, its child and the child's child, the last two centuries late. -/
def earlyRoot : Share := timedShare 0 0 0 0

def lateChild : Share := timedShare 1 1 1 8589934592

def lateGrandchild : Share := timedShare 2 2 2 8589934592

/-- The grandchild and the child wait for the root. -/
def lateOrphans : List ChainOp :=
  [ .submit lateGrandchild sampleContext 8589934592 .light
  , .submit lateChild sampleContext 8589934592 .light ]

def lateOrphansChain : ShareChain :=
  finalState (runOps sampleBackend lateOrphans sampleStart)

/-- The root and the child are connected. -/
def lateBranch : List ChainOp :=
  [ .submit earlyRoot sampleContext 0 .light
  , .submit lateChild sampleContext 8589934592 .light ]

def lateBranchChain : ShareChain :=
  finalState (runOps sampleBackend lateBranch sampleStart)

theorem sampleRun_invariant
    {ops : List ChainOp}
    (succeeded :
      succeeds (runOps sampleBackend ops sampleStart) = true) :
    ShareChain.RepresentationInvariant sampleBackend
        (finalState (runOps sampleBackend ops sampleStart)) ∧
      (finalState (runOps sampleBackend ops sampleStart)).difficultyPolicy =
        sampleStart.difficultyPolicy := by
  have fresh : ShareChain.Fresh sampleBackend sampleStart :=
    .inr ⟨sampleParameters, sampleStart_built⟩
  obtain ⟨wellFormed, samePolicy, _⟩ :=
    runOps_wellFormed fresh.wellFormed (eq_ok_of_succeeds succeeded)
  exact ⟨wellFormed.representationInvariant, samePolicy⟩

/-- An orphan of the sample, found with what the admission rules read of it. -/
theorem lateOrphan_found
    {id : ShareId}
    {share : Share}
    (buffered :
      (lateOrphansChain.orphans[id]?).map
          (fun orphan => (orphan.share, orphan.enforceSidechainDifficulty)) =
        some (share, true)) :
    ∃ orphan,
      lateOrphansChain.orphans[id]? = some orphan ∧
      orphan.share = share ∧
      orphan.enforceSidechainDifficulty = true := by
  obtain ⟨orphan, found, same⟩ := Option.map_eq_some_iff.mp buffered
  rw [Prod.mk.injEq] at same
  exact ⟨orphan, found, same⟩

open ShareChain in
/-- Connecting the root promotes the child, and the grandchild cannot be judged. -/
theorem earlyRoot_blocked
    {policy : DifficultyPolicy}
    (isPolicy : sampleStart.difficultyPolicy = some policy)
    (samePolicy :
      lateOrphansChain.difficultyPolicy = sampleStart.difficultyPolicy)
    {record : OrphanShare}
    (vetted :
      vetSubmission sampleBackend (some policy) earlyRoot sampleContext 0
        .light = some record) :
    PromotionBlocked policy lateOrphansChain record := by
  obtain ⟨share, keyed, enforced, _⟩ := vetSubmission_record vetted
  have identity : shareId sampleBackend earlyRoot = .ok 1 := by
    decide +kernel
  rw [share, identity, Except.ok.injEq] at keyed
  obtain ⟨child, childFound, childShare, childEnforced⟩ :=
    @lateOrphan_found 2 lateChild (by decide +kernel)
  obtain ⟨grandchild, found, grandchildShare, grandchildEnforced⟩ :=
    @lateOrphan_found 3 lateGrandchild (by decide +kernel)
  cases isPolicy
  refine ⟨?_, ?_, ?_, [], ?_, ?_, 2, [lateChild, earlyRoot], 3, grandchild,
    ?_, found, ?_, .inr ⟨grandchildEnforced, ?_, .inr (.inr ?_)⟩⟩
  · rw [← keyed]
    decide +kernel
  · rw [← keyed]
    decide +kernel
  · rw [samePolicy, share]
    decide +kernel
  · rw [share]
    exact .root
  · rw [samePolicy, share, enforced]
    decide +kernel
  · have root :
        Promotable lateOrphansChain record.id [record.share] 1
          [earlyRoot] := by
      rw [← keyed, share]
      exact .root
    have judged :
        recordVerdict lateOrphansChain.difficultyPolicy [earlyRoot] child =
          .ok .none := by
      rw [recordVerdict_eq_ok, samePolicy, childShare, childEnforced]
      decide +kernel
    have promoted := Promotable.orphan root childFound (by rw [childShare]; rfl)
      judged
    rw [childShare] at promoted
    exact promoted
  · rw [grandchildShare]
    rfl
  · rw [grandchildShare]
    decide +kernel
  · refine ⟨_, List.mem_cons_of_mem _ List.mem_cons_self, _,
      List.mem_cons_self, ?_⟩
    decide +kernel

open ShareChain in
/--
On the connected branch the grandchild cannot be judged, and nothing changes.
Where it waits for the root, the root connects the child before it throws.
-/
theorem admission_atomic_iff_late :
    (∃ thrown final,
      submitShare sampleBackend lateGrandchild sampleContext 8589934592 .light
        lateBranchChain = .error thrown final) ∧
    Atomic lateBranchChain
      (submitShare sampleBackend lateGrandchild sampleContext 8589934592 .light
        lateBranchChain) ∧
    ¬ Atomic lateOrphansChain
      (submitShare sampleBackend earlyRoot sampleContext 0 .light
        lateOrphansChain) := by
  obtain ⟨connectedInvariant, connectedPolicy⟩ :=
    @sampleRun_invariant lateBranch (by decide +kernel)
  obtain ⟨bufferedInvariant, bufferedPolicy⟩ :=
    @sampleRun_invariant lateOrphans (by decide +kernel)
  refine ⟨?_, ?_, ?_⟩
  · exact ⟨.runtimeError "sidechain difficulty timestamp range is too large",
      _, eq_error_of_thrown (by decide +kernel)⟩
  · refine ((admission_atomic_iff sampleStart_built rfl connectedPolicy
      connectedInvariant).1 _ _ _ _).mpr ?_
    intro record _ blocked
    obtain ⟨_, _, _, _, _, id, orphan, _, buffered, _⟩ := blocked.blocked
    have none : lateBranchChain.orphans = ∅ := by decide +kernel
    change lateBranchChain.orphans[id]? = some orphan at buffered
    rw [none] at buffered
    simp at buffered
  · refine mt ((admission_atomic_iff sampleStart_built rfl bufferedPolicy
      bufferedInvariant).1 _ _ _ _).mp ?_
    intro clear
    cases vetted : vetSubmission sampleBackend sampleStart.difficultyPolicy
        earlyRoot sampleContext 0 .light with
    | none => exact absurd vetted (by decide +kernel)
    | some record =>
        exact clear record vetted
          (earlyRoot_blocked rfl bufferedPolicy vetted)

/-- The root connects the child; the grandchild throws, and both stay connected. -/
theorem lateOrphansChain_notAtomic :
    ShareChain.RepresentationInvariant sampleBackend lateOrphansChain ∧
      lateOrphansChain.difficultyPolicy.isSome = true ∧
      ¬ ShareChain.Atomic lateOrphansChain
        (ShareChain.submitShare sampleBackend earlyRoot sampleContext 0 .light
          lateOrphansChain) := by
  obtain ⟨invariant, samePolicy⟩ :=
    @sampleRun_invariant lateOrphans (by decide +kernel)
  refine ⟨invariant, congrArg Option.isSome samePolicy, ?_⟩
  intro atomic
  have throws :
      ∃ thrown final,
        ShareChain.submitShare sampleBackend earlyRoot sampleContext 0 .light
            lateOrphansChain = .error thrown final ∧
          final.connected.contains 1 = true :=
    ⟨.runtimeError "sidechain difficulty timestamp range is too large", _,
      eq_error_of_thrown (by decide +kernel), by decide +kernel⟩
  obtain ⟨thrown, final, threw, connected⟩ := throws
  rw [atomic thrown final threw] at connected
  exact absurd connected (by decide +kernel)

end ZanoP2pool
