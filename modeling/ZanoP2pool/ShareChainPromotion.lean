import ZanoP2pool.ShareChainTrust

namespace ZanoP2pool

open Foundation

/-!
# Connecting and promoting

`connect_share` follows the verdict of the branch below its share.  A promotion
connects more shares and buffers fewer; it goes on until an orphan cannot be
judged.  What makes sure that every orphan can be judged differs from caller to
caller, so it is a property the caller chooses.
-/

namespace ShareChain

variable {backend : Backend} {chain next : ShareChain}

/-- What the structural checks establish about a share. -/
theorem structuralRejectReason_eq_none
    {policy : Option DifficultyPolicy}
    {share : Share}
    (accepted : structuralRejectReason policy share = .none) :
    share.shareDifficulty ≠ 0 ∧
      (share.parentId = 0 ↔ share.shareHeight = 0) := by
  simp only [structuralRejectReason] at accepted
  split_ifs at accepted with _ zeroWork _ _ rootParent rootHeight childHeight
  · exact ⟨difficulty128IsZero_eq_false.mp (Bool.not_eq_true _ ▸ zeroWork),
      iff_of_true (isZeroShareId_iff.mp rootParent)
        (not_ne_iff.mp rootHeight)⟩
  · exact ⟨difficulty128IsZero_eq_false.mp (Bool.not_eq_true _ ▸ zeroWork),
      iff_of_false (isZeroShareId_eq_false.mp (Bool.not_eq_true _ ▸ rootParent))
        childHeight⟩

section Connect

variable {record : OrphanShare} {branch : List Share}

/-- Verdict of `connect_share` on a record that stands on a branch. -/
def recordVerdict
    (policy : Option DifficultyPolicy)
    (branch : List Share)
    (record : OrphanShare) :
    Except Exception ShareRejectReason := do
  let _ ← shareWork record.share.shareDifficulty
  branchVerdict policy branch record.share record.enforceSidechainDifficulty

/-- A record with work is judged as its share is. -/
theorem recordVerdict_eq
    {policy : Option DifficultyPolicy}
    (nonzero : record.share.shareDifficulty ≠ 0) :
    recordVerdict policy branch record =
      branchVerdict policy branch record.share
        record.enforceSidechainDifficulty := by
  rw [recordVerdict, shareWork_eq_ok nonzero]
  rfl

/-- Only a record with work gets a verdict. -/
theorem recordVerdict_eq_ok
    {policy : Option DifficultyPolicy}
    {reason : ShareRejectReason} :
    recordVerdict policy branch record = .ok reason ↔
      record.share.shareDifficulty ≠ 0 ∧
      branchVerdict policy branch record.share
        record.enforceSidechainDifficulty = .ok reason := by
  by_cases zero : record.share.shareDifficulty = 0
  · rw [recordVerdict, zero, shareWork_zero]
    simp [bind, Except.bind]
  · rw [recordVerdict_eq zero]
    exact (and_iff_right zero).symm

/-- The chain after `connect_share`, before the orphan buffer is updated. -/
def linked
    (chain : ShareChain)
    (branch : List Share)
    (record : OrphanShare) :
    ShareChain :=
  { chain with
    connected :=
      chain.connected.insert record.id (chain.attachedEntry branch record)
    bestTipId := chain.offeredTip (chain.attachedEntry branch record) }

/-- Connecting a record that is not buffered leaves the orphans alone. -/
theorem linked_eq_attach
    (notBuffered : chain.orphans[record.id]? = none) :
    chain.linked branch record = chain.attach branch record := by
  simp [linked, attach, erase_of_absent notBuffered]

/-- On a branch, `connect_share` follows the verdict of the branch. -/
theorem connectShare_apply
    (standing : Standing chain)
    (nonzero : record.share.shareDifficulty ≠ 0)
    (fresh : chain.connected[record.id]? = none)
    (isBranch : Branch chain.connected record.share.parentId branch) :
    connectShare record.share record.id record.powValidation
        record.enforceSidechainDifficulty chain =
      match branchVerdict chain.difficultyPolicy branch record.share
          record.enforceSidechainDifficulty with
      | .error thrown => .error thrown chain
      | .ok reason =>
          .ok reason
            (if reason = .none then chain.linked branch record
            else chain) := by
  have decided :=
    connectedEntry_eq standing.rooted isBranch nonzero record.id
      record.powValidation record.enforceSidechainDifficulty
  have notContained : chain.contains record.id = false :=
    contains_eq_false_iff.mpr fresh
  have offered :
      offerBestTip (chain.attachedEntry branch record)
          { chain with
            connected := chain.connected.insert record.id
              (chain.attachedEntry branch record) } =
        .ok () (chain.linked branch record) :=
    offerBestTip_apply standing.bestTip fresh
  unfold connectShare
  rw [get_bind_apply, decided]
  cases branchVerdict chain.difficultyPolicy branch record.share
      record.enforceSidechainDifficulty with
  | error thrown =>
      rfl
  | ok reason =>
      by_cases admitted : reason = .none
      · rw [admitted]
        simp only [Except.map, if_true]
        change (if chain.contains record.id = true then _ else _ : ChainM _) chain = _
        rw [notContained, if_neg Bool.false_ne_true, set_bind_apply]
        exact bind_of_ok offered
      · simp [admitted, Except.map, bind_apply]

/-- Without work `connect_share` throws at once. -/
theorem connectShare_zeroWork
    (zero : record.share.shareDifficulty = 0) :
    connectShare record.share record.id record.powValidation
        record.enforceSidechainDifficulty chain =
      .error (.invalidArgument "share difficulty must be greater than zero")
        chain := by
  have thrown :
      chain.connectedEntry record.share record.id record.powValidation
          record.enforceSidechainDifficulty =
        .error (.invalidArgument
          "share difficulty must be greater than zero") := by
    rw [connectedEntry, zero, shareWork_zero]
    rfl
  simp [connectShare, thrown, bind_apply]

/-- Without a connected parent `connect_share` throws at once. -/
theorem connectShare_parentMissing
    (nonzeroParent : record.share.parentId ≠ 0)
    (missing : chain.connected[record.share.parentId]? = none) :
    ∃ thrown,
      connectShare record.share record.id record.powValidation
          record.enforceSidechainDifficulty chain =
        .error thrown chain := by
  by_cases zero : record.share.shareDifficulty = 0
  · exact ⟨_, connectShare_zeroWork zero⟩
  · have thrown :
        chain.connectedEntry record.share record.id record.powValidation
            record.enforceSidechainDifficulty =
          .error (.logicError
            "connect_share called without a connected parent") := by
      simp [connectedEntry, shareWork_eq_ok zero, connectParent,
        isZeroShareId_eq_false.mpr nonzeroParent, find, missing, bind,
        Except.bind]
    refine ⟨.logicError "connect_share called without a connected parent", ?_⟩
    simp [connectShare, thrown, bind_apply]

/-- The three ways `connect_share` can end on a fresh record. -/
inductive ConnectOutcome
    (chain : ShareChain)
    (record : OrphanShare) :
    EStateM.Result Exception ShareChain ShareRejectReason → Prop where
  | threw
      {thrown : Exception} :
      (∀ ⦃branch : List Share⦄,
        Branch chain.connected record.share.parentId branch →
          recordVerdict chain.difficultyPolicy branch record =
            .error thrown) →
      ConnectOutcome chain record (.error thrown chain)
  | refused
      {branch : List Share}
      {reason : ShareRejectReason} :
      Branch chain.connected record.share.parentId branch →
      recordVerdict chain.difficultyPolicy branch record = .ok reason →
      reason ≠ .none →
      ConnectOutcome chain record (.ok reason chain)
  | linked
      {branch : List Share} :
      Branch chain.connected record.share.parentId branch →
      recordVerdict chain.difficultyPolicy branch record = .ok .none →
      ConnectOutcome chain record (.ok .none (chain.linked branch record))

/-- `connect_share` ends in one of its three ways on every fresh record. -/
theorem connectShare_outcome
    (standing : Standing chain)
    (fresh : chain.connected[record.id]? = none) :
    ConnectOutcome chain record
      (connectShare record.share record.id record.powValidation
        record.enforceSidechainDifficulty chain) := by
  by_cases zero : record.share.shareDifficulty = 0
  · rw [connectShare_zeroWork zero]
    refine .threw fun branch _ => ?_
    rw [recordVerdict, zero, shareWork_zero]
    rfl
  by_cases known :
      record.share.parentId = 0 ∨
        ∃ parent, chain.connected[record.share.parentId]? = some parent
  · obtain ⟨branch, isBranch⟩ := standing.exists_branch known
    rw [connectShare_apply standing zero fresh isBranch,
      ← recordVerdict_eq zero]
    cases judged : recordVerdict chain.difficultyPolicy branch record with
    | error thrown =>
        refine .threw fun other isOther => ?_
        rw [isOther.unique isBranch]
        exact judged
    | ok reason =>
        by_cases admitted : reason = .none
        · subst reason
          exact .linked isBranch judged
        · simp only [admitted, if_false]
          exact .refused isBranch judged admitted
  · rw [not_or, not_exists] at known
    obtain ⟨thrown, failed⟩ :=
      @connectShare_parentMissing chain record known.1
        (Option.eq_none_iff_forall_ne_some.mpr known.2)
    rw [failed]
    refine .threw fun branch isBranch => ?_
    obtain ⟨parent, _, found, _⟩ := isBranch.head known.1
    exact absurd found (known.2 parent)

end Connect

section Drains

/-- Orphans indexed under a parent. -/
def listed (chain : ShareChain) (parentId : ShareId) : List ShareId :=
  chain.orphansByParent[parentId]?.getD []

/-- The list of a parent after another parent was taken out. -/
theorem listed_unindex
    (erased parentId : ShareId) :
    (chain.unindex erased).listed parentId =
      if parentId = erased then [] else chain.listed parentId := by
  unfold listed unindex
  rw [Std.ExtTreeMap.getElem?_erase]
  by_cases same : parentId = erased
  · simp [same]
  · simp [same, Ne.symm same]

/-- Attaching a record connects its identity and nothing else. -/
theorem contains_attach
    {branch : List Share}
    {record : OrphanShare}
    {id : ShareId} :
    (chain.attach branch record).contains id = true ↔
      id = record.id ∨ chain.contains id = true := by
  simp only [contains, attach, contains_iff_getElem?, getElem?_insert_iff]
  by_cases same : id = record.id
  · simp [same]
  · simp [same]

/-- An orphan listed under a parent waits for that parent. -/
def ListedByParent (chain : ShareChain) : Prop :=
  ∀ ⦃parentId id : ShareId⦄ ⦃orphan : OrphanShare⦄,
    id ∈ chain.listed parentId →
    chain.orphans[id]? = some orphan →
      orphan.share.parentId = parentId

/-- What a promotion may do: connect more, buffer and list less. -/
structure Drains (chain next : ShareChain) : Prop where
  connected : ∀ id, chain.contains id = true → next.contains id = true
  orphans :
    ∀ ⦃id : ShareId⦄ ⦃orphan : OrphanShare⦄,
      next.orphans[id]? = some orphan → chain.orphans[id]? = some orphan
  listed :
    ∀ ⦃parentId id : ShareId⦄,
      id ∈ next.listed parentId → id ∈ chain.listed parentId

namespace Drains

theorem refl (chain : ShareChain) : Drains chain chain :=
  ⟨fun _ => id, fun _ _ => id, fun _ _ => id⟩

theorem trans
    {middle last : ShareChain}
    (first : Drains chain middle)
    (second : Drains middle last) :
    Drains chain last where
  connected := fun id present =>
    second.connected id (first.connected id present)
  orphans := fun _ _ found => first.orphans (second.orphans found)
  listed := fun _ _ member => first.listed (second.listed member)

theorem listedByParent
    (drains : Drains chain next)
    (byParent : ListedByParent chain) :
    ListedByParent next :=
  fun _ _ _ member found =>
    byParent (drains.listed member) (drains.orphans found)

end Drains

/-- Attaching a record connects it and forgets its orphan entry. -/
theorem attach_drains
    (branch : List Share)
    (record : OrphanShare) :
    Drains chain (chain.attach branch record) where
  connected := fun _ present => contains_attach.mpr (.inr present)
  orphans := fun _ _ found => (getElem?_erase_iff.mp found).2
  listed := fun _ _ => id

theorem discard_drains
    (id : ShareId) :
    Drains chain (chain.discard id) where
  connected := fun _ present => present
  orphans := fun _ _ found => (getElem?_erase_iff.mp found).2
  listed := fun _ _ member => member

theorem unindex_drains
    (parentId : ShareId) :
    Drains chain (chain.unindex parentId) where
  connected := fun _ present => present
  orphans := fun _ _ found => found
  listed := by
    intro other id member
    rw [listed_unindex] at member
    split at member
    · simp at member
    · exact member

/-- Every elementary change of a promotion drains the chain. -/
theorem Growth.drains
    (growth : Growth backend none chain next) :
    Drains chain next := by
  cases growth with
  | attach _ _ _ _ _ => exact attach_drains _ _
  | buffer offered _ _ _ _ _ => cases offered
  | discard _ _ _ _ => exact discard_drains _
  | unindex parentId => exact unindex_drains parentId

theorem Growths.drains
    (growths : Growths backend none chain next) :
    Drains chain next := by
  induction growths with
  | refl => exact .refl _
  | tail _ growth inductionHypothesis =>
      exact inductionHypothesis.trans growth.drains

end Drains

section Steps

/--
One step of a promotion: a buffered orphan is connected or dropped, or the list
of a parent is taken out of the index.  The parent of an orphan that is connected
is there if the promotion was ready for it.
-/
inductive Promotion (ready : Prop) : ShareChain → ShareChain → Prop where
  | connect
      {chain : ShareChain}
      {branch : List Share}
      {id : ShareId}
      {orphan : OrphanShare} :
      chain.orphans[id]? = some orphan →
      (ready → chain.contains orphan.share.parentId = true) →
      Branch chain.connected orphan.share.parentId branch →
      recordVerdict chain.difficultyPolicy branch orphan = .ok .none →
      Promotion ready chain (chain.attach branch { orphan with id })
  | drop
      {chain : ShareChain}
      {branch : List Share}
      {id : ShareId}
      {orphan : OrphanShare}
      {reason : ShareRejectReason} :
      chain.orphans[id]? = some orphan →
      Branch chain.connected orphan.share.parentId branch →
      recordVerdict chain.difficultyPolicy branch orphan = .ok reason →
      reason ≠ .none →
      Promotion ready chain (chain.discard id)
  | take
      {chain : ShareChain}
      (parentId : ShareId) :
      Promotion ready chain (chain.unindex parentId)

/-- A sequence of promotion steps. -/
def Promotions (ready : Prop) : ShareChain → ShareChain → Prop :=
  Relation.ReflTransGen (Promotion ready)

section Step

variable {ready later : Prop}

theorem Promotion.mono
    (step : Promotion later chain next)
    (weaker : ready → later) :
    Promotion ready chain next := by
  cases step with
  | connect buffered connected isBranch judged =>
      exact .connect buffered (fun holds => connected (weaker holds)) isBranch
        judged
  | drop buffered isBranch judged refusal =>
      exact .drop buffered isBranch judged refusal
  | take parentId => exact .take parentId

theorem Promotion.standing
    (step : Promotion ready chain next)
    (standing : Standing chain) :
    Standing next := by
  cases step with
  | connect buffered _ isBranch judged =>
      exact standing.attach (standing.disjoint buffered) isBranch
        (recordVerdict_eq_ok.mp judged).2
  | drop _ _ _ _ => exact standing.discard _
  | take parentId => exact standing.unindex parentId

theorem Promotion.drains
    (step : Promotion ready chain next) :
    Drains chain next := by
  cases step with
  | connect _ _ _ _ => exact attach_drains _ _
  | drop _ _ _ _ => exact discard_drains _
  | take parentId => exact unindex_drains parentId

theorem Promotion.samePolicy
    (step : Promotion ready chain next) :
    next.difficultyPolicy = chain.difficultyPolicy := by
  cases step <;> rfl

theorem Promotions.mono
    (steps : Promotions later chain next)
    (weaker : ready → later) :
    Promotions ready chain next := by
  induction steps with
  | refl => exact .refl
  | tail _ step inductionHypothesis =>
      exact inductionHypothesis.tail (step.mono weaker)

theorem Promotions.standing
    (steps : Promotions ready chain next)
    (standing : Standing chain) :
    Standing next := by
  induction steps with
  | refl => exact standing
  | tail _ step inductionHypothesis => exact step.standing inductionHypothesis

theorem Promotions.drains
    (steps : Promotions ready chain next) :
    Drains chain next := by
  induction steps with
  | refl => exact .refl _
  | tail _ step inductionHypothesis =>
      exact inductionHypothesis.trans step.drains

theorem Promotions.samePolicy
    (steps : Promotions ready chain next) :
    next.difficultyPolicy = chain.difficultyPolicy := by
  induction steps with
  | refl => rfl
  | tail _ step inductionHypothesis =>
      exact step.samePolicy.trans inductionHypothesis

/-- In a sound chain a promotion step is an elementary change. -/
theorem Promotion.growth
    (step : Promotion ready chain next)
    (sound : Sound backend chain)
    (incoming : Option OrphanShare) :
    Growth backend incoming chain next := by
  cases step with
  | @connect branch id orphan buffered _ isBranch judged =>
      obtain ⟨rfl, wellFormed⟩ := sound.orphanKeyed buffered
      exact .attach (.inr buffered) wellFormed (sound.disjoint buffered)
        isBranch (recordVerdict_eq_ok.mp judged).2
  | drop buffered isBranch judged refusal =>
      exact .discard buffered isBranch (recordVerdict_eq_ok.mp judged).2
        refusal
  | take parentId => exact .unindex parentId

theorem Promotions.growths
    (steps : Promotions ready chain next)
    (sound : Sound backend chain)
    (incoming : Option OrphanShare) :
    Growths backend incoming chain next := by
  induction steps with
  | refl => exact .refl
  | tail _ step inductionHypothesis =>
      exact inductionHypothesis.tail
        (step.growth ((Growths.changes inductionHypothesis).sound sound)
          incoming)

end Step

/-- The listed children wait for connected parents. -/
structure Ready (chain : ShareChain) (children : List ShareId) : Prop where
  byParent : ListedByParent chain
  connected :
    ∀ id ∈ children, ∀ orphan, chain.orphans[id]? = some orphan →
      chain.contains orphan.share.parentId = true

theorem Ready.drained
    {children rest : List ShareId}
    (ready : Ready chain children)
    (drains : Drains chain next)
    (fewer : ∀ id ∈ rest, id ∈ children) :
    Ready next rest where
  byParent := drains.listedByParent ready.byParent
  connected := fun id member orphan found =>
    drains.connected _
      (ready.connected id (fewer id member) orphan (drains.orphans found))

/-- The list of a connected parent is ready. -/
theorem ListedByParent.ready
    (byParent : ListedByParent chain)
    {parentId : ShareId}
    (connected : chain.contains parentId = true)
    {children : List ShareId}
    (fewer : ∀ id ∈ children, id ∈ chain.listed parentId) :
    Ready chain children where
  byParent := byParent
  connected := by
    intro id member orphan found
    rw [byParent (fewer id member) found]
    exact connected

/-- An orphan on which `connect_share` throws. -/
structure Unjudgeable
    (chain : ShareChain)
    (thrown : Exception)
    (id : ShareId)
    (orphan : OrphanShare) :
    Prop where
  buffered : chain.orphans[id]? = some orphan
  threw :
    ∀ ⦃branch : List Share⦄,
      Branch chain.connected orphan.share.parentId branch →
        recordVerdict chain.difficultyPolicy branch orphan = .error thrown

/--
How a promotion ends: after steps of its own, and when it throws, in front of an
orphan that cannot be judged, although its parent is connected if the promotion
was ready.
-/
structure PromotionEnds
    (chain : ShareChain)
    (ready : Prop)
    (result : EStateM.Result Exception ShareChain Nat) :
    Prop where
  steps : Promotions ready chain (finalState result)
  stuck :
    ∀ thrown final, result = .error thrown final →
      ∃ id orphan,
        Unjudgeable final thrown id orphan ∧
        (ready → final.contains orphan.share.parentId = true)

namespace PromotionEnds

variable {ready later : Prop}
variable {result : EStateM.Result Exception ShareChain Nat}

theorem returned
    (promoted : Nat) :
    PromotionEnds chain ready (.ok promoted chain) :=
  ⟨.refl, by rintro _ _ ⟨⟩⟩

/-- Earlier steps count. -/
theorem after
    (steps : Promotions ready chain next)
    (weaker : ready → later)
    (ends : PromotionEnds next later result) :
    PromotionEnds chain ready result where
  steps := steps.trans (ends.steps.mono weaker)
  stuck := by
    intro thrown final threw
    obtain ⟨id, orphan, unjudgeable, connected⟩ :=
      ends.stuck thrown final threw
    exact ⟨id, orphan, unjudgeable, fun holds => connected (weaker holds)⟩

/-- A promotion followed by another one. -/
theorem bind
    {first : ChainM Nat}
    {tail : Nat → ChainM Nat}
    (head : PromotionEnds chain ready (first chain))
    (rest :
      ∀ value middle, first chain = .ok value middle →
        PromotionEnds middle ready (tail value middle)) :
    PromotionEnds chain ready ((first >>= tail) chain) := by
  cases ran : first chain with
  | error thrown final =>
      rw [ran] at head
      rw [bind_of_error ran]
      exact head
  | ok value middle =>
      have steps := head.steps
      rw [ran] at steps
      rw [bind_of_ok ran]
      exact (rest value middle ran).after steps id

end PromotionEnds

end Steps

section Loops

/-- Promoting listed orphans ends after steps of its own or is stuck. -/
theorem promoteEach_ends
    {promote : ShareId → ChainM Nat}
    (promotes :
      ∀ ⦃chain : ShareChain⦄ (id : ShareId),
        Standing chain →
          PromotionEnds chain
            (ListedByParent chain ∧ chain.contains id = true)
            (promote id chain))
    (children : List ShareId)
    (standing : Standing chain) :
    PromotionEnds chain (Ready chain children)
      (promoteEach promote children chain) := by
  induction children generalizing chain with
  | nil => exact .returned 0
  | cons childId rest inductionHypothesis =>
      have fewer : ∀ id ∈ rest, id ∈ childId :: rest :=
        fun _ => List.mem_cons_of_mem _
      unfold promoteEach
      rw [get_bind_apply]
      cases buffered : chain.orphans[childId]? with
      | none =>
          exact (inductionHypothesis standing).after .refl
            fun ready => ready.drained (.refl chain) fewer
      | some orphan =>
          have outcome :=
            @connectShare_outcome chain { orphan with id := childId } standing
              (standing.disjoint buffered)
          simp only at outcome ⊢
          cases ran : connectShare orphan.share childId orphan.powValidation
              orphan.enforceSidechainDifficulty chain with
          | error thrown final =>
              rw [ran] at outcome
              rw [bind_of_error ran]
              cases outcome with
              | threw judged =>
                  refine ⟨.refl, ?_⟩
                  rintro _ _ ⟨⟩
                  exact ⟨childId, orphan, ⟨buffered, judged⟩, fun ready =>
                    ready.connected childId List.mem_cons_self orphan
                      buffered⟩
          | ok reason final =>
              rw [ran] at outcome
              rw [bind_of_ok ran, modify_bind_apply]
              cases outcome with
              | refused isBranch judged refusal =>
                  have step :
                      Promotion (Ready chain (childId :: rest)) chain
                        (chain.discard childId) :=
                    .drop buffered isBranch judged refusal
                  rw [if_neg refusal]
                  exact (inductionHypothesis (step.standing standing)).after
                    (.single step)
                    fun ready => ready.drained step.drains fewer
              | @linked branch isBranch judged =>
                  have step :
                      Promotion (Ready chain (childId :: rest)) chain
                        (chain.attach branch { orphan with id := childId }) :=
                    .connect buffered
                      (fun ready => ready.connected childId
                        List.mem_cons_self orphan buffered)
                      isBranch judged
                  rw [if_pos rfl]
                  refine PromotionEnds.after (.single step)
                    (fun ready => ready.drained step.drains fewer) ?_
                  have head :=
                    (promotes childId (step.standing standing)).after .refl
                      fun ready : Ready _ rest =>
                        ⟨ready.byParent, contains_attach.mpr (.inl rfl)⟩
                  -- the other children are promoted from where the first ends
                  refine head.bind fun deeper middle promoted => ?_
                  have steps := head.steps
                  rw [promoted] at steps
                  have others :=
                    (inductionHypothesis
                      (steps.standing (step.standing standing))).after .refl
                      fun ready : Ready _ rest =>
                        ready.drained steps.drains fun _ => id
                  exact others.bind fun later final _ => .returned _

/-- Recursive promotion ends after steps of its own or is stuck. -/
theorem promoteChildrenUpTo_ends
    (depth : Nat)
    (parentId : ShareId)
    (standing : Standing chain) :
    PromotionEnds chain
      (ListedByParent chain ∧ chain.contains parentId = true)
      (promoteChildrenUpTo depth parentId chain) := by
  induction depth generalizing chain parentId with
  | zero => exact .returned 0
  | succ depth inductionHypothesis =>
      unfold promoteChildrenUpTo
      rw [get_bind_apply]
      cases entry : chain.orphansByParent[parentId]? with
      | none => exact .returned 0
      | some childIds =>
          have step :
              Promotion
                (ListedByParent chain ∧ chain.contains parentId = true)
                chain (chain.unindex parentId) :=
            .take parentId
          simp only [set_bind_apply]
          refine PromotionEnds.after (.single step) ?_
            (promoteEach_ends (fun _ id => inductionHypothesis id) _
              (step.standing standing))
          rintro ⟨byParent, connected⟩
          refine (byParent.ready connected ?_).drained step.drains
            fun _ => id
          intro id member
          rw [List.mem_insertionSort] at member
          simpa [listed, entry] using member

theorem promoteChildren_ends
    (parentId : ShareId)
    (standing : Standing chain) :
    PromotionEnds chain
      (ListedByParent chain ∧ chain.contains parentId = true)
      (promoteChildren parentId chain) :=
  promoteChildrenUpTo_ends _ parentId standing

/-- A promotion is a sequence of elementary changes that offers no record. -/
theorem promoteChildren_growths
    (parentId : ShareId)
    (sound : Sound backend chain)
    (incoming : Option OrphanShare) :
    Growths backend incoming chain
      (finalState (promoteChildren parentId chain)) :=
  (promoteChildren_ends parentId sound.standing).steps.growths sound incoming

end Loops

/-- A property under which orphans of connected parents can be judged. -/
structure Judges
    (backend : Backend)
    (holds : ShareChain → Prop) :
    Prop where
  sound : ∀ ⦃chain : ShareChain⦄, holds chain → Sound backend chain
  listedByParent : ∀ ⦃chain : ShareChain⦄, holds chain → ListedByParent chain
  step :
    ∀ ⦃chain next : ShareChain⦄,
      holds chain → Growth backend none chain next → holds next
  judged :
    ∀ ⦃chain : ShareChain⦄ ⦃id : ShareId⦄ ⦃orphan : OrphanShare⦄
        ⦃branch : List Share⦄,
      holds chain →
      chain.orphans[id]? = some orphan →
      Branch chain.connected orphan.share.parentId branch →
        ∃ reason,
          branchVerdict chain.difficultyPolicy branch orphan.share
            orphan.enforceSidechainDifficulty = .ok reason

namespace Judges

variable {holds : ShareChain → Prop}

theorem steps
    (judges : Judges backend holds)
    (holding : holds chain)
    (growths : Growths backend none chain next) :
    holds next := by
  induction growths with
  | refl => exact holding
  | tail _ growth inductionHypothesis =>
      exact judges.step inductionHypothesis growth

/-- Promoting the children of a connected share returns normally. -/
theorem promoteChildren_returns
    (judges : Judges backend holds)
    (holding : holds chain)
    {parentId : ShareId}
    (connected : chain.contains parentId = true) :
    ∃ promoted final,
      promoteChildren parentId chain = .ok promoted final := by
  have sound := judges.sound holding
  have ends := promoteChildren_ends parentId sound.standing
  have kept :=
    judges.steps holding (promoteChildren_growths parentId sound none)
  cases ran : promoteChildren parentId chain with
  | ok promoted final => exact ⟨promoted, final, rfl⟩
  | error thrown final =>
      -- the orphan it is stuck at could have been judged
      exfalso
      rw [ran] at kept
      change holds final at kept
      obtain ⟨id, orphan, stuck, parentConnected⟩ := ends.stuck _ _ ran
      obtain ⟨parent, found⟩ :=
        contains_iff_getElem?.mp
          (parentConnected ⟨judges.listedByParent holding, connected⟩)
      have keptSound := judges.sound kept
      obtain ⟨branch, isBranch⟩ :=
        keptSound.standing.exists_branch (.inr ⟨parent, found⟩)
      obtain ⟨reason, judged⟩ := judges.judged kept stuck.buffered isBranch
      obtain ⟨_, wellFormed⟩ := keptSound.orphanKeyed stuck.buffered
      have threw := stuck.threw isBranch
      rw [recordVerdict_eq
        (structuralRejectReason_eq_none wellFormed.structural).1] at threw
      rw [threw] at judged
      cases judged

end Judges

end ShareChain

end ZanoP2pool
