import ZanoP2pool.ShareChainPruning
import ZanoP2pool.ShareChainRestore

namespace ZanoP2pool

open Foundation

/-!
# Reachable share chains

Runs of the five mutating entry points of the chain, and the invariants that
hold after every run in which no call throws.
-/

/-- One call of a mutating entry point of the chain. -/
inductive ChainOp where
  | submit
      (share : Share)
      (trustedContext : ShareWorkContext)
      (now : UInt64)
      (mode : ProgPowZContextMode)
  | addUnchecked
      (share : Share)
  | revalidate
      (id : ShareId)
      (trustedContext : ShareWorkContext)
      (now : UInt64)
      (mode : ProgPowZContextMode)
  | restore
      (records : List ReplayValidationRecord)
  | prune
      (rootId : ShareId)
  deriving Repr, DecidableEq

namespace ChainOp

/-- The share a call is given, if any. -/
def share? : ChainOp → Option Share
  | .submit share _ _ _ => some share
  | .addUnchecked share => some share
  | _ => none

/-- Execute one call, dropping its result. -/
def run (backend : Backend) : ChainOp → ChainM Unit
  | .submit share trustedContext now mode => do
      let _ ← ShareChain.submitShare backend share trustedContext now mode
  | .addUnchecked share => do
      let _ ← ShareChain.addShareUnchecked backend share
  | .revalidate id trustedContext now mode => do
      let _ ← ShareChain.revalidateConnectedShare backend id trustedContext
        now mode
  | .restore records => do
      let _ ← ShareChain.restoreReplayValidation backend records
  | .prune rootId => do
      let _ ← ShareChain.pruneConnectedSubtreeIds rootId

end ChainOp

/-- Execute calls in order, stopping at the first exception. -/
def runOps (backend : Backend) : List ChainOp → ChainM Unit
  | [] => return ()
  | op :: rest => do
      op.run backend
      runOps backend rest

/-- Execute calls in order, going on with the chain an exception leaves. -/
def attemptOps
    (backend : Backend)
    (ops : List ChainOp)
    (chain : ShareChain) :
    ShareChain :=
  ops.foldl (fun chain op => finalState (op.run backend chain)) chain

/-- A run without exceptions is an attempt of the same calls. -/
theorem attemptOps_of_runOps
    {backend : Backend}
    {ops : List ChainOp}
    {chain final : ShareChain}
    (ran : runOps backend ops chain = .ok () final) :
    attemptOps backend ops chain = final := by
  induction ops generalizing chain with
  | nil =>
      cases ran
      rfl
  | cons op rest inductionHypothesis =>
      obtain ⟨⟨⟩, middle, first, later⟩ := bind_eq_ok.mp ran
      rw [attemptOps, List.foldl_cons, first]
      exact inductionHypothesis later

namespace ShareChain

variable {backend : Backend}

/-- A freshly constructed chain, with or without sidechain parameters. -/
def Fresh (backend : Backend) (chain : ShareChain) : Prop :=
  chain = {} ∨ ∃ params, ofParameters backend params = .ok chain

/-- The invariants kept by every call that returns normally. -/
structure WellFormed
    (backend : Backend)
    (chain : ShareChain) :
    Prop where
  sound : Sound backend chain
  trusted : Trusted chain
  settled : Settled chain

/-- A configured fresh chain is empty and enforces a policy. -/
theorem ofParameters_eq_ok
    {params : SidechainParameters}
    {chain : ShareChain}
    (built : ofParameters backend params = .ok chain) :
    ∃ policy parameterId,
      chain =
        { difficultyPolicy := some policy
          parameterId := some parameterId } := by
  unfold ofParameters at built
  obtain ⟨parameterId, _, finished⟩ := except_bind_eq_ok.mp built
  cases finished
  exact ⟨_, _, rfl⟩

/-- Fresh chains satisfy all invariants. -/
theorem Fresh.wellFormed
    {chain : ShareChain}
    (fresh : Fresh backend chain) :
    WellFormed backend chain := by
  rcases fresh with rfl | ⟨params, built⟩
  · exact ⟨Sound.empty backend none none, Trusted.empty none none,
      Settled.empty none none⟩
  · obtain ⟨policy, parameterId, rfl⟩ := ofParameters_eq_ok built
    exact ⟨Sound.empty backend _ _, Trusted.empty _ _, Settled.empty _ _⟩

/-- Elementary changes leave the configuration alone. -/
theorem Change.sameConfiguration
    {incoming : Option OrphanShare}
    {chain next : ShareChain}
    (change : Change backend incoming chain next) :
    next.difficultyPolicy = chain.difficultyPolicy ∧
      next.parameterId = chain.parameterId := by
  cases change with
  | growth growth => cases growth <;> exact ⟨rfl, rfl⟩
  | upgrade _ _ _ _ _ _ _ => exact ⟨rfl, rfl⟩
  | retain _ _ => exact ⟨rfl, rfl⟩

theorem Changes.sameConfiguration
    {incoming : Option OrphanShare}
    {chain final : ShareChain}
    (changes : Changes backend incoming chain final) :
    final.difficultyPolicy = chain.difficultyPolicy ∧
      final.parameterId = chain.parameterId := by
  refine changes.preserves
    (fun next =>
      next.difficultyPolicy = chain.difficultyPolicy ∧
        next.parameterId = chain.parameterId) ?_ ⟨rfl, rfl⟩
  intro middle next before change
  have same := change.sameConfiguration
  exact ⟨same.1.trans before.1, same.2.trans before.2⟩

/-- The record an unchecked insertion offers. -/
def uncheckedRecord (share : Share) (id : ShareId) : OrphanShare :=
  { share, id, powValidation := none, enforceSidechainDifficulty := false }

/--
A submission inserts its vetted record or leaves the chain alone; the record
carries consistent validation state.
-/
theorem submitShare_outcome
    {chain : ShareChain}
    (standing : Standing chain)
    (share : Share)
    (trustedContext : ShareWorkContext)
    (now : UInt64)
    (mode : ProgPowZContextMode) :
    (∃ record,
      vetSubmission backend chain.difficultyPolicy share trustedContext now
        mode = some record ∧
      AddOutcome backend chain record
        (submitShare backend share trustedContext now mode chain)) ∨
    (vetSubmission backend chain.difficultyPolicy share trustedContext now
        mode = none ∧
      LeavesChain chain
        (submitShare backend share trustedContext now mode chain)) := by
  cases vetted : vetSubmission backend chain.difficultyPolicy share
      trustedContext now mode with
  | none =>
      exact .inr ⟨rfl, submitShare_unvetted vetted⟩
  | some record =>
      obtain ⟨_, keyed, _, _⟩ := vetSubmission_record vetted
      rw [submitShare_eq_add standing vetted]
      exact .inl ⟨record, rfl, addPrevalidatedShare_outcome keyed standing⟩

/-- An unchecked insertion offers its record, or its identity cannot exist. -/
theorem addShareUnchecked_outcome
    {chain : ShareChain}
    (standing : Standing chain)
    (share : Share) :
    (∃ id,
      shareId backend share = .ok id ∧
      AddOutcome backend chain (uncheckedRecord share id)
        (addShareUnchecked backend share chain)) ∨
    (∃ thrown,
      shareId backend share = .error thrown ∧
      addShareUnchecked backend share chain = .error thrown chain) := by
  cases keyed : shareId backend share with
  | error thrown =>
      refine .inr ⟨thrown, rfl, ?_⟩
      simp [addShareUnchecked, addPrevalidatedShare, keyed, bind_apply]
  | ok id =>
      have outcome :
          AddOutcome backend chain (uncheckedRecord share id)
            (addShareUnchecked backend share chain) :=
        addPrevalidatedShare_outcome keyed standing
      exact .inl ⟨id, rfl, outcome⟩

end ShareChain

namespace ChainOp

open ShareChain

variable {backend : Backend} {chain : ShareChain}

/-- Dropping a result does not change the final state. -/
theorem finalState_discard
    {α : Type}
    (action : ChainM α) :
    finalState ((do let _ ← action : ChainM Unit) chain) =
      finalState (action chain) := by
  simp only [bind_apply]
  cases action chain <;> rfl

/-- Every call is a sequence of elementary changes, however it ends. -/
theorem run_changes
    (sound : Sound backend chain)
    (trusted : Trusted chain)
    (op : ChainOp) :
    ∃ incoming,
      (∀ record, incoming = some record →
        op.share? = some record.share ∧
          ConsistentPow record.powValidation) ∧
      Changes backend incoming chain (finalState (op.run backend chain)) := by
  cases op with
  | submit share trustedContext now mode =>
      rw [run, finalState_discard]
      rcases submitShare_outcome sound.standing share trustedContext now mode with
        ⟨record, vetted, outcome⟩ | ⟨_, unchanged⟩
      · obtain ⟨rfl, _, _, consistent⟩ := vetSubmission_record vetted
        refine ⟨some record, ?_, (outcome.growths sound).changes⟩
        rintro _ ⟨⟩
        exact ⟨rfl, consistent⟩
      · refine ⟨none, by simp, ?_⟩
        rcases unchanged with ⟨thrown, same⟩ | ⟨value, same, _⟩
        · rw [same]
          exact .refl
        · rw [same]
          exact .refl
  | addUnchecked share =>
      rw [run, finalState_discard]
      rcases addShareUnchecked_outcome sound.standing share with
        ⟨id, _, outcome⟩ | ⟨thrown, _, same⟩
      · refine ⟨some (uncheckedRecord share id), ?_, (outcome.growths sound).changes⟩
        rintro _ ⟨⟩
        refine ⟨rfl, ?_⟩
        intro validation stored
        cases stored
      · refine ⟨none, by simp, ?_⟩
        rw [same]
        exact .refl
  | revalidate id trustedContext now mode =>
      rw [run, finalState_discard]
      exact ⟨none, by simp,
        (revalidateConnectedShare_outcome sound id trustedContext now
          mode).changes⟩
  | restore records =>
      rw [run, finalState_discard]
      exact ⟨none, by simp,
        restoreReplayValidation_changes sound trusted records none⟩
  | prune rootId =>
      rw [run, finalState_discard]
      exact ⟨none, by simp,
        (pruneConnectedSubtreeIds_outcome sound rootId).changes⟩

/-- A call whose result was dropped returned normally. -/
theorem discard_eq_ok
    {α : Type}
    {action : ChainM α}
    {next : ShareChain}
    (ran : (do let _ ← action : ChainM Unit) chain = .ok () next) :
    ∃ value, action chain = .ok value next := by
  obtain ⟨value, middle, acted, finished⟩ := bind_eq_ok.mp ran
  cases finished
  exact ⟨value, acted⟩

/-- A call that returns normally leaves no promotable orphan behind. -/
theorem run_settled
    (wellFormed : WellFormed backend chain)
    {op : ChainOp}
    {next : ShareChain}
    (ran : op.run backend chain = .ok () next) :
    Settled next := by
  obtain ⟨sound, trusted, settled⟩ := wellFormed
  cases op with
  | submit share trustedContext now mode =>
      obtain ⟨value, submitted⟩ := discard_eq_ok ran
      rcases submitShare_outcome sound.standing share trustedContext now mode with
        ⟨record, _, outcome⟩ | ⟨_, unchanged⟩
      · rw [submitted] at outcome
        exact outcome.settled sound.standing settled
      · rw [submitted] at unchanged
        rcases unchanged with ⟨thrown, same⟩ | ⟨other, same, _⟩
        · cases same
        · cases same
          exact settled
  | addUnchecked share =>
      obtain ⟨value, added⟩ := discard_eq_ok ran
      rcases addShareUnchecked_outcome sound.standing share with
        ⟨id, _, outcome⟩ | ⟨thrown, _, same⟩
      · rw [added] at outcome
        exact outcome.settled sound.standing settled
      · rw [added] at same
        cases same
  | revalidate id trustedContext now mode =>
      obtain ⟨value, revalidated⟩ := discard_eq_ok ran
      have outcome :=
        revalidateConnectedShare_outcome sound id trustedContext now mode
      rw [revalidated] at outcome
      cases outcome with
      | kept _ => exact settled
      | upgraded found _ _ _ _ _ _ =>
          refine Indexed.congr settled rfl rfl ?_
          intro other connected
          obtain ⟨entry, present⟩ := contains_iff_getElem?.mp connected
          obtain ⟨old, oldFound, _⟩ :=
            Sound.found_before_upgrade found present
          exact contains_iff_getElem?.mpr ⟨old, oldFound⟩
  | restore records =>
      obtain ⟨value, restored⟩ := discard_eq_ok ran
      by_cases accepted : RestoreAccepted chain records
      · obtain ⟨count, final, succeeded, installed⟩ :=
          restoreReplayValidation_ok sound trusted accepted
        rw [restored] at succeeded
        cases succeeded
        have unchanged := installed.restored.unchanged
        refine Indexed.congr settled (by rw [unchanged]) (by rw [unchanged])
          ?_
        intro other connected
        obtain ⟨entry, present⟩ := contains_iff_getElem?.mp connected
        rw [installed.restored.connected, Option.map_eq_some_iff] at present
        obtain ⟨old, oldFound, _⟩ := present
        exact contains_iff_getElem?.mpr ⟨old, oldFound⟩
      · by_cases empty : records = []
        · subst records
          cases restored
          exact settled
        · obtain ⟨thrown, failed⟩ :=
            restoreReplayValidation_error sound trusted empty accepted
          rw [restored] at failed
          cases failed
  | prune rootId =>
      obtain ⟨value, pruned⟩ := discard_eq_ok ran
      have outcome := pruneConnectedSubtreeIds_outcome sound rootId
      rw [pruned] at outcome
      cases outcome with
      | absent _ => exact settled
      | removed _ _ retains _ =>
          refine Indexed.congr settled rfl rfl ?_
          intro other connected
          obtain ⟨entry, present⟩ := contains_iff_getElem?.mp connected
          exact contains_iff_getElem?.mpr
            ⟨entry, (retains.lookup.mp present).1⟩

/-- A call that returns normally keeps all invariants. -/
theorem run_wellFormed
    (wellFormed : WellFormed backend chain)
    {op : ChainOp}
    {next : ShareChain}
    (ran : op.run backend chain = .ok () next) :
    WellFormed backend next ∧
      next.difficultyPolicy = chain.difficultyPolicy ∧
      next.parameterId = chain.parameterId := by
  obtain ⟨incoming, offered, changes⟩ :=
    run_changes wellFormed.sound wellFormed.trusted op
  rw [ran] at changes
  have trusted :=
    changes.preserves Trusted
      (fun _ _ holds change =>
        change.trusted (fun record same => (offered record same).2) holds)
      wellFormed.trusted
  exact ⟨⟨changes.sound wellFormed.sound, trusted,
    run_settled wellFormed ran⟩, changes.sameConfiguration⟩

end ChainOp

/-- Every run without exceptions keeps all invariants. -/
theorem runOps_wellFormed
    {backend : Backend}
    {ops : List ChainOp}
    {chain final : ShareChain}
    (wellFormed : ShareChain.WellFormed backend chain)
    (ran : runOps backend ops chain = .ok () final) :
    ShareChain.WellFormed backend final ∧
      final.difficultyPolicy = chain.difficultyPolicy ∧
      final.parameterId = chain.parameterId := by
  induction ops generalizing chain with
  | nil =>
      cases ran
      exact ⟨wellFormed, rfl, rfl⟩
  | cons op rest inductionHypothesis =>
      obtain ⟨⟨⟩, middle, first, later⟩ := bind_eq_ok.mp ran
      obtain ⟨middleWellFormed, samePolicy, sameParameters⟩ :=
        ChainOp.run_wellFormed wellFormed first
      obtain ⟨finalWellFormed, laterPolicy, laterParameters⟩ :=
        inductionHypothesis middleWellFormed later
      exact ⟨finalWellFormed, laterPolicy.trans samePolicy,
        laterParameters.trans sameParameters⟩

/-- Whatever throws, soundness and the meaning of the flags survive. -/
theorem attemptOps_sound
    {backend : Backend}
    {ops : List ChainOp}
    {chain : ShareChain}
    (sound : ShareChain.Sound backend chain)
    (trusted : ShareChain.Trusted chain) :
    ShareChain.Sound backend (attemptOps backend ops chain) ∧
      ShareChain.Trusted (attemptOps backend ops chain) ∧
      (attemptOps backend ops chain).difficultyPolicy =
        chain.difficultyPolicy := by
  induction ops generalizing chain with
  | nil => exact ⟨sound, trusted, rfl⟩
  | cons op rest inductionHypothesis =>
      obtain ⟨incoming, offered, changes⟩ :=
        ChainOp.run_changes sound trusted op
      have nextTrusted :=
        changes.preserves ShareChain.Trusted
          (fun _ _ holds change =>
            change.trusted (fun record same => (offered record same).2)
              holds) trusted
      obtain ⟨finalSound, finalTrusted, samePolicy⟩ :=
        inductionHypothesis (changes.sound sound) nextTrusted
      exact ⟨finalSound, finalTrusted,
        samePolicy.trans changes.sameConfiguration.1⟩

namespace ShareChain

variable {backend : Backend}

/-- Every share the chain holds has a property. -/
def HoldsOnly
    (property : Share → Prop)
    (chain : ShareChain) :
    Prop :=
  (∀ ⦃id : ShareId⦄ ⦃entry : ConnectedShare⦄,
    chain.connected[id]? = some entry → property entry.share) ∧
  (∀ ⦃id : ShareId⦄ ⦃orphan : OrphanShare⦄,
    chain.orphans[id]? = some orphan → property orphan.share)

/-- An elementary change adds at most the incoming share. -/
theorem Change.holdsOnly
    {property : Share → Prop}
    {incoming : Option OrphanShare}
    {chain next : ShareChain}
    (offered : ∀ record, incoming = some record → property record.share)
    (holds : HoldsOnly property chain)
    (change : Change backend incoming chain next) :
    HoldsOnly property next := by
  cases change with
  | growth growth =>
      cases growth with
      | @attach branch record origin _ fresh _ _ =>
          have recordHolds : property record.share := by
            rcases origin with arrives | buffered
            · exact offered record arrives
            · exact holds.2 buffered
          refine ⟨?_, fun _ _ found =>
            holds.2 (getElem?_erase_iff.mp found).2⟩
          intro id entry found
          rcases (getElem?_insert_fresh fresh _).mp found with
            ⟨_, rfl⟩ | present
          · exact recordHolds
          · exact holds.1 present
      | buffer arrives _ _ notBuffered _ _ =>
          refine ⟨holds.1, ?_⟩
          intro id orphan found
          rcases (getElem?_insert_fresh notBuffered _).mp found with
            ⟨_, rfl⟩ | present
          · exact offered _ arrives
          · exact holds.2 present
      | discard _ _ _ _ =>
          exact ⟨holds.1, fun _ _ found =>
            holds.2 (getElem?_erase_iff.mp found).2⟩
      | unindex _ => exact holds
  | upgrade found _ _ _ _ _ _ =>
      refine ⟨?_, holds.2⟩
      intro id entry present
      obtain ⟨old, oldFound, sameShare⟩ :=
        Sound.found_before_upgrade found present
      rw [sameShare.1]
      exact holds.1 oldFound
  | retain retains _ =>
      exact ⟨fun _ _ found => holds.1 (retains.lookup.mp found).1, holds.2⟩

end ShareChain

/-- Whatever throws, a chain holds only shares that it was given. -/
theorem attemptOps_holdsOnly
    {backend : Backend}
    {property : Share → Prop}
    {ops : List ChainOp}
    {chain : ShareChain}
    (sound : ShareChain.Sound backend chain)
    (trusted : ShareChain.Trusted chain)
    (offered :
      ∀ op ∈ ops, ∀ share, op.share? = some share → property share)
    (holds : ShareChain.HoldsOnly property chain) :
    ShareChain.HoldsOnly property (attemptOps backend ops chain) := by
  induction ops generalizing chain with
  | nil => exact holds
  | cons op rest inductionHypothesis =>
      obtain ⟨incoming, arrives, changes⟩ :=
        ChainOp.run_changes sound trusted op
      have nextTrusted :=
        changes.preserves ShareChain.Trusted
          (fun _ _ holds change =>
            change.trusted (fun record same => (arrives record same).2)
              holds) trusted
      have nextHolds :=
        changes.preserves (ShareChain.HoldsOnly property)
          (fun _ _ holds change =>
            change.holdsOnly (fun record same =>
              offered op (by simp) record.share (arrives record same).1)
              holds) holds
      exact inductionHypothesis (changes.sound sound) nextTrusted
        (fun other member => offered other (by simp [member])) nextHolds

end ZanoP2pool
