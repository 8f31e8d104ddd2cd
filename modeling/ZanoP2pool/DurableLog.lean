import ZanoP2pool.Reconciliation
import ZanoP2pool.ShareLogReplay
import ZanoP2pool.ShareStoreRecords

namespace ZanoP2pool

open Foundation

/-!
# The durable log of a running node

Admissions append to the share store, and prunes hand the removed identities to
`erase_records`.  Reconciliation with canonical Zano history prunes the chain
in memory and returns counts, so the records of the pruned shares stay behind.
-/

/-- The consensus state of a node together with its share store. -/
structure DurableNode where
  consensus : ConsensusState
  store : ShareStore

abbrev DurableM := EStateM Exception DurableNode

/-- Run a computation on the consensus state. -/
def onConsensus
    {α : Type}
    (action : ConsensusM α) :
    DurableM α :=
  fun node =>
    match action node.consensus with
    | .ok value consensus => .ok value { node with consensus }
    | .error thrown consensus => .error thrown { node with consensus }

/-- Run a computation on the share store. -/
def onStore
    {α : Type}
    (action : StoreM α) :
    DurableM α :=
  fun node =>
    match action node.store with
    | .ok value store => .ok value { node with store }
    | .error thrown store => .error thrown { node with store }

/-- A call that changes the chain or the log of a running node. -/
inductive DurableOp where
  | admission
      (submission : Submission)
      (mode : ProgPowZContextMode)
  | rememberTrustedWork
      (context : ShareWorkContext)
      (parentId : ShareId)
      (zanoParentHash : Hash256)
  | reconcileCanonicalParent
      (zanoHeight : UInt64)
      (canonicalParentHash : Hash256)
  | reconcileUnavailableWorkHeight
      (zanoHeight : UInt64)
  | reconcileUnavailableWorkAbove
      (maximumZanoHeight : UInt64)
  | prune
      (rootId : ShareId)

namespace DurableOp

/-- Submit a share and append it when the chain took it. -/
def admitShare
    (backend : Backend)
    (submission : Submission)
    (mode : ProgPowZContextMode) :
    DurableM Unit := do
  let result ← onConsensus (onChain (ShareChain.submitShare backend
    submission.share submission.trustedContext submission.now mode))
  if result.disposition = .connected ∨ result.disposition = .orphan then
    onStore (ShareStore.append backend submission.share)
  else
    return ()

/-- Prune a subtree and erase the records of the shares it held. -/
def pruneShares (backend : Backend) (rootId : ShareId) : DurableM Unit := do
  let removed ← onConsensus (onChain
    (ShareChain.pruneConnectedSubtreeIds rootId))
  let _ ← onStore (ShareStore.eraseRecords backend removed)

def run (backend : Backend) : DurableOp → DurableM Unit
  | admission submission mode => admitShare backend submission mode
  | rememberTrustedWork context parentId zanoParentHash =>
      onConsensus do
        let state ← get
        let trustedWork ← orThrow
          (state.trustedWork.rememberWithProvenance context parentId
            zanoParentHash)
        set { state with trustedWork }
  | reconcileCanonicalParent zanoHeight canonicalParentHash =>
      onConsensus do
        let _ ← ZanoP2pool.reconcileCanonicalParent zanoHeight
          canonicalParentHash
  | reconcileUnavailableWorkHeight zanoHeight =>
      onConsensus do
        let _ ← ZanoP2pool.reconcileUnavailableWorkHeight zanoHeight
  | reconcileUnavailableWorkAbove maximumZanoHeight =>
      onConsensus do
        let _ ← ZanoP2pool.reconcileUnavailableWorkAbove maximumZanoHeight
  | prune rootId => pruneShares backend rootId

/-- The node after a call; a call that throws keeps what it changed. -/
def attempt
    (backend : Backend)
    (op : DurableOp)
    (node : DurableNode) :
    DurableNode :=
  finalState (op.run backend node)

end DurableOp

namespace DurableNode

/-- The chain holds a share as connected or as an orphan. -/
def holds (node : DurableNode) (id : ShareId) : Bool :=
  node.consensus.chain.contains id || node.consensus.chain.isOrphan id

/-- A record whose share is no longer in memory. -/
def Stranded (node : DurableNode) (id : ShareId) : Prop :=
  id ∈ node.store.recordIds ∧ node.holds id = false

instance (node : DurableNode) (id : ShareId) : Decidable (node.Stranded id) :=
  inferInstanceAs (Decidable (_ ∧ _))

/-- Every call is a step that the condition allows. -/
def Steps
    (backend : Backend)
    (allowed : DurableOp → DurableNode → Prop)
    (node next : DurableNode) :
    Prop :=
  ∃ op, allowed op node ∧ op.attempt backend node = next

/-- A node that allowed calls lead to. -/
def Reaches
    (backend : Backend)
    (allowed : DurableOp → DurableNode → Prop) :
    DurableNode → DurableNode → Prop :=
  Relation.ReflTransGen (Steps backend allowed)

/-- The log can be loaded and filtered: no identity occurs twice. -/
structure Loadable (backend : Backend) (store : ShareStore) : Prop where
  distinct : store.recordIds.Nodup
  loads :
    ∀ (start : ShareChain), ShareChain.Fresh backend start →
      ∀ (repair : Bool) (final : ShareChain),
        ShareStore.loadInto backend store repair start ≠
          .error
            (.runtimeError "share store contains duplicate record") final
  erases :
    ∀ ids, ∃ removed next,
      ShareStore.eraseRecords backend ids store = .ok removed next

end DurableNode

/-- The step does not submit a share whose record is stranded. -/
def DurableOp.AvoidsStranded
    (backend : Backend) :
    DurableOp → DurableNode → Prop
  | .admission submission _, node =>
      ∀ id, shareId backend submission.share = .ok id → ¬ node.Stranded id
  | _, _ => True

section Store

variable {backend : Backend} {node : DurableNode}

/-- A computation on the consensus state leaves the store alone. -/
@[simp] theorem onConsensus_store
    {α : Type}
    (action : ConsensusM α) :
    (finalState (onConsensus action node)).store = node.store := by
  unfold onConsensus
  cases action node.consensus with
  | ok value consensus => rfl
  | error thrown consensus => rfl

/-- The chain after a computation that only touches the chain. -/
theorem onConsensus_onChain
    {α : Type}
    (action : ChainM α) :
    onConsensus (onChain action) node =
      match action node.consensus.chain with
      | .ok value chain =>
          .ok value { node with consensus := { node.consensus with chain } }
      | .error thrown chain =>
          .error thrown
            { node with consensus := { node.consensus with chain } } := by
  unfold onConsensus onChain
  cases action node.consensus.chain with
  | ok value chain => rfl
  | error thrown chain => rfl

/-- A share the chain holds is a duplicate. -/
theorem ShareChain.submitShare_known
    {chain : ShareChain}
    {share : Share}
    {id : ShareId}
    (keyed : shareId backend share = .ok id)
    (known : (chain.contains id || chain.isOrphan id) = true)
    (trustedContext : ShareWorkContext)
    (now : UInt64)
    (mode : ProgPowZContextMode) :
    ShareChain.submitShare backend share trustedContext now mode chain =
      .ok { id, disposition := .duplicate } chain := by
  unfold ShareChain.submitShare
  rw [keyed, bind_of_ok (orThrow_ok _ _), get_bind_apply, if_pos known]
  rfl

/-- A share without an identity is not submitted. -/
theorem ShareChain.submitShare_unkeyed
    {chain : ShareChain}
    {share : Share}
    {thrown : Exception}
    (unkeyed : shareId backend share = .error thrown)
    (trustedContext : ShareWorkContext)
    (now : UInt64)
    (mode : ProgPowZContextMode) :
    ShareChain.submitShare backend share trustedContext now mode chain =
      .error thrown chain := by
  unfold ShareChain.submitShare
  rw [unkeyed]
  rfl

/-- The records after an admission. -/
theorem admitShare_lists
    {records : List (ShareId × Share)}
    (lists : ShareStore.Lists backend node.store records)
    (distinct : (records.map Prod.fst).Nodup)
    {submission : Submission}
    (mode : ProgPowZContextMode)
    (avoids :
      ∀ id, shareId backend submission.share = .ok id →
        ¬ node.Stranded id) :
    ∃ later,
      ShareStore.Lists backend
        (finalState
          (DurableOp.admitShare backend submission mode node)).store later ∧
      (later.map Prod.fst).Nodup := by
  unfold DurableOp.admitShare
  rw [bind_apply, onConsensus_onChain]
  cases keyed : shareId backend submission.share with
  | error thrown =>
      rw [ShareChain.submitShare_unkeyed keyed]
      exact ⟨records, lists, distinct⟩
  | ok id =>
      by_cases known :
          (node.consensus.chain.contains id ||
            node.consensus.chain.isOrphan id) = true
      · rw [ShareChain.submitShare_known keyed known]
        exact ⟨records, lists, distinct⟩
      have unlisted : id ∉ records.map Prod.fst := by
        intro listed
        refine avoids id keyed ⟨?_, by simpa [DurableNode.holds] using known⟩
        rw [lists.recordIds_eq]
        exact listed
      cases ShareChain.submitShare backend submission.share
          submission.trustedContext submission.now mode
          node.consensus.chain with
      | error thrown chain => exact ⟨records, lists, distinct⟩
      | ok result chain =>
          simp only
          by_cases taken :
              result.disposition = .connected ∨
                result.disposition = .orphan
          · obtain ⟨next, appended, nextLists⟩ := lists.append keyed
            rw [if_pos taken]
            simp only [onStore, appended]
            refine ⟨_, nextLists, ?_⟩
            rw [List.map_append, List.map_singleton,
              List.nodup_append_comm, List.singleton_append,
              List.nodup_cons]
            exact ⟨unlisted, distinct⟩
          · rw [if_neg taken]
            exact ⟨records, lists, distinct⟩

/-- The records after a prune. -/
theorem pruneShares_lists
    {records : List (ShareId × Share)}
    (lists : ShareStore.Lists backend node.store records)
    (distinct : (records.map Prod.fst).Nodup)
    (rootId : ShareId) :
    ∃ later,
      ShareStore.Lists backend
        (finalState (DurableOp.pruneShares backend rootId node)).store
        later ∧
      (later.map Prod.fst).Nodup := by
  unfold DurableOp.pruneShares
  rw [bind_apply, onConsensus_onChain]
  cases ShareChain.pruneConnectedSubtreeIds rootId node.consensus.chain with
  | error thrown chain => exact ⟨records, lists, distinct⟩
  | ok removed chain =>
      obtain ⟨count, next, erased, nextLists⟩ :=
        lists.eraseRecords distinct removed
      simp only [bind_apply, onStore, erased]
      exact ⟨_, nextLists,
        List.Nodup.sublist (List.filter_sublist.map Prod.fst) distinct⟩

/-- A step that avoids stranded records keeps the log free of repetitions. -/
theorem DurableOp.attempt_lists
    {records : List (ShareId × Share)}
    (lists : ShareStore.Lists backend node.store records)
    (distinct : (records.map Prod.fst).Nodup)
    {op : DurableOp}
    (avoids : op.AvoidsStranded backend node) :
    ∃ later,
      ShareStore.Lists backend (op.attempt backend node).store later ∧
      (later.map Prod.fst).Nodup := by
  cases op with
  | admission submission mode =>
      exact admitShare_lists lists distinct mode avoids
  | prune rootId =>
      exact pruneShares_lists lists distinct rootId
  | rememberTrustedWork _ _ _ =>
      refine ⟨records, ?_, distinct⟩
      rw [attempt, run, onConsensus_store]
      exact lists
  | reconcileCanonicalParent _ _ =>
      refine ⟨records, ?_, distinct⟩
      rw [attempt, run, onConsensus_store]
      exact lists
  | reconcileUnavailableWorkHeight _ =>
      refine ⟨records, ?_, distinct⟩
      rw [attempt, run, onConsensus_store]
      exact lists
  | reconcileUnavailableWorkAbove _ =>
      refine ⟨records, ?_, distinct⟩
      rw [attempt, run, onConsensus_store]
      exact lists

/-- Steps that avoid stranded records keep the log free of repetitions. -/
theorem DurableNode.Reaches.lists
    {reached : DurableNode}
    {records : List (ShareId × Share)}
    (lists : ShareStore.Lists backend node.store records)
    (distinct : (records.map Prod.fst).Nodup)
    (reaches :
      Reaches backend (DurableOp.AvoidsStranded backend) node reached) :
    ∃ later,
      ShareStore.Lists backend reached.store later ∧
      (later.map Prod.fst).Nodup := by
  induction reaches with
  | refl => exact ⟨records, lists, distinct⟩
  | tail _ step inductionHypothesis =>
      obtain ⟨middle, middleLists, middleDistinct⟩ := inductionHypothesis
      obtain ⟨op, avoids, rfl⟩ := step
      exact op.attempt_lists middleLists middleDistinct avoids

end Store

namespace ShareChain

variable {backend : Backend} {chain : ShareChain}

/-- No share of the chain has one of the identities. -/
def Misses
    (backend : Backend)
    (records : List (ShareId × Share)) :
    ShareChain → Prop :=
  HoldsOnly fun share =>
    ∀ record ∈ records, shareId backend share ≠ .ok record.1

/-- An identity that the chain misses is not known to it. -/
theorem Misses.unknown
    (sound : Sound backend chain)
    {records : List (ShareId × Share)}
    (misses : Misses backend records chain)
    {record : ShareId × Share}
    (member : record ∈ records) :
    ¬ (chain.contains record.1 || chain.isOrphan record.1) = true := by
  rw [Bool.or_eq_true, contains, isOrphan, contains_iff_getElem?,
    contains_iff_getElem?]
  rintro (⟨entry, found⟩ | ⟨orphan, found⟩)
  · exact misses.1 found record member (sound.keyed found).2
  · obtain ⟨sameId, wellFormed⟩ := sound.orphanKeyed found
    exact misses.2 found record member (sameId ▸ wellFormed.keyed)

/-- Replaying distinct records never meets a duplicate. -/
theorem replayShares_distinct
    {records : List (ShareId × Share)}
    (keyed :
      ∀ record ∈ records, shareId backend record.2 = .ok record.1)
    (distinct : (records.map Prod.fst).Nodup)
    (wellFormed : WellFormed backend chain)
    (unchecked : Unchecked chain)
    (misses : Misses backend records chain)
    (final : ShareChain) :
    ShareStore.replayShares backend (records.map Prod.snd) chain ≠
      .error
        (.runtimeError "share store contains duplicate record") final := by
  induction records generalizing chain with
  | nil => simp [ShareStore.replayShares]
  | cons record rest inductionHypothesis =>
      obtain ⟨first, laterDistinct⟩ := List.nodup_cons.mp distinct
      have recordKeyed := keyed record (by simp)
      have outcome :
          AddOutcome backend chain (uncheckedRecord record.2 record.1)
            (addShareUnchecked backend record.2 chain) :=
        addPrevalidatedShare_outcome recordKeyed
          wellFormed.sound.standing
      obtain ⟨value, next, added, nextUnchecked⟩ :=
        outcome.unchecked wellFormed.sound wellFormed.settled unchecked rfl
      have ran :
          (ChainOp.addUnchecked record.2).run backend chain = .ok () next :=
        bind_of_ok added
      have nextFormed := (ChainOp.run_wellFormed wellFormed ran).1
      -- The chain now also holds the replayed share, whose identity is new.
      have nextMisses : Misses backend rest next := by
        obtain ⟨incoming, offered, changes⟩ :=
          ChainOp.run_changes wellFormed.sound wellFormed.trusted
            (.addUnchecked record.2)
        rw [ran] at changes
        refine changes.preserves (Misses backend rest)
          (fun _ _ holds change => change.holdsOnly ?_ holds)
          ⟨fun _ _ found other member => misses.1 found other (by simp [member]),
            fun _ _ found other member =>
              misses.2 found other (by simp [member])⟩
        intro arriving same other member sameKey
        have sameShare := Option.some.inj (offered arriving same).1
        rw [← sameShare, recordKeyed] at sameKey
        exact first
          (Except.ok.inj sameKey ▸ List.mem_map_of_mem member)
      rw [added] at outcome
      have notDuplicate : value.disposition ≠ .duplicate := by
        intro duplicate
        cases outcome with
        | duplicate known =>
            exact misses.unknown wellFormed.sound (by simp) known
        | malformed _ _ _ _ => cases duplicate
        | buffered _ _ _ _ _ => cases duplicate
        | refused _ _ _ _ _ _ => cases duplicate
        | connected _ _ _ _ _ _ => cases duplicate
      rw [List.map_cons, ShareStore.replayShares, bind_apply]
      unfold ShareStore.replayShare
      rw [bind_of_ok added, if_neg notDuplicate]
      by_cases rejected : value.disposition = .rejected
      · rw [if_pos rejected, throw_apply]
        intro same
        have sameText :=
          Exception.runtimeError.inj (EStateM.Result.error.inj same).1
        revert sameText
        cases value.rejectReason <;> decide
      · rw [if_neg rejected]
        exact inductionHypothesis
          (fun other member => keyed other (by simp [member]))
          laterDistinct nextFormed nextUnchecked nextMisses

/-- A fresh chain misses everything. -/
theorem Fresh.misses
    (fresh : Fresh backend chain)
    (records : List (ShareId × Share)) :
    Misses backend records chain := by
  rcases fresh with rfl | ⟨params, built⟩
  · exact ⟨fun _ _ found => by simp at found,
      fun _ _ found => by simp at found⟩
  · obtain ⟨policy, parameterId, rfl⟩ := ofParameters_eq_ok built
    exact ⟨fun _ _ found => by simp at found,
      fun _ _ found => by simp at found⟩

end ShareChain

/-- A log of distinct records is loadable. -/
theorem ShareStore.Lists.loadable
    {backend : Backend}
    {store : ShareStore}
    {records : List (ShareId × Share)}
    (lists : ShareStore.Lists backend store records)
    (distinct : (records.map Prod.fst).Nodup) :
    DurableNode.Loadable backend store where
  distinct := by
    rw [lists.recordIds_eq]
    exact distinct
  loads := by
    intro start fresh repair final
    rcases lists.holds with ⟨absent, _⟩ | holds
    · rw [ShareStore.loadInto_absent absent]
      simp
    · have replay :=
        ShareChain.replayShares_distinct lists.keyed distinct
          fresh.wellFormed fresh.replaying.unchecked (fresh.misses records)
      rw [ShareStore.loadInto_eq holds]
      cases replayed :
          ShareStore.replayShares backend (records.map Prod.snd) start with
      | ok value reached => simp
      | error thrown reached =>
          intro same
          obtain ⟨sameThrown, sameFinal⟩ := EStateM.Result.error.inj same
          rw [sameThrown, sameFinal] at replayed
          exact replay final replayed
  erases := by
    intro ids
    obtain ⟨removed, next, erased, _⟩ := lists.eraseRecords distinct ids
    exact ⟨removed, next, erased⟩

/--
A node that starts on a log of distinct records keeps it loadable as long as no
step submits a share whose record is stranded.
-/
theorem durableLog_loadable
    {backend : Backend}
    {node reached : DurableNode}
    {records : List (ShareId × Share)}
    (opened : ShareStore.Lists backend node.store records)
    (distinct : (records.map Prod.fst).Nodup)
    (reaches :
      DurableNode.Reaches backend (DurableOp.AvoidsStranded backend) node
        reached) :
    DurableNode.Loadable backend reached.store := by
  obtain ⟨later, lists, laterDistinct⟩ := reaches.lists opened distinct
  exact lists.loadable laterDistinct

/-- A node on an empty chain, before its first write. -/
def sampleNode : DurableNode where
  consensus := { chain := sampleStart }
  store := sampleStore

/-- The submission of a root share mined at Zano height seven. -/
def sampleAdmit : DurableOp :=
  .admission ⟨sampleShare 0 0 0 1, sampleContext, 1000⟩ .light

/-- The node after the root was admitted and the daemon fell back to six. -/
def sampleRolledBack : DurableNode :=
  (DurableOp.reconcileUnavailableWorkAbove 6).attempt easyBackend
    (sampleAdmit.attempt easyBackend sampleNode)

/-- The rolled back node has lost the share, not its record. -/
theorem sampleRolledBack_loadable :
    sampleRolledBack.Stranded 1 ∧
      DurableNode.Loadable easyBackend sampleRolledBack.store := by
  refine ⟨by decide +kernel, ?_⟩
  have unstranded :
      sampleAdmit.AvoidsStranded easyBackend sampleNode := by
    intro id _ stranded
    exact List.not_mem_nil stranded.1
  have admitted :
      DurableNode.Reaches easyBackend
        (DurableOp.AvoidsStranded easyBackend) sampleNode
        (sampleAdmit.attempt easyBackend sampleNode) :=
    .single ⟨sampleAdmit, unstranded, rfl⟩
  have reaches :
      DurableNode.Reaches easyBackend
        (DurableOp.AvoidsStranded easyBackend) sampleNode
        sampleRolledBack :=
    admitted.tail ⟨.reconcileUnavailableWorkAbove 6, trivial, rfl⟩
  exact durableLog_loadable (ShareStore.lists_absent rfl) (by simp) reaches

/--
Admitting the share again after the rollback logs it twice, and the next start
refuses the log.
-/
theorem sampleRolledBack_readmitted :
    ¬ ∀ reached,
      DurableNode.Reaches easyBackend (fun _ _ => True) sampleNode reached →
        DurableNode.Loadable easyBackend reached.store := by
  intro always
  have reaches :
      DurableNode.Reaches easyBackend (fun _ _ => True) sampleNode
        (sampleAdmit.attempt easyBackend sampleRolledBack) :=
    (Relation.ReflTransGen.single
      ⟨sampleAdmit, trivial, rfl⟩).tail
      ⟨.reconcileUnavailableWorkAbove 6, trivial, rfl⟩ |>.tail
      ⟨sampleAdmit, trivial, rfl⟩
  have refused :=
    @eq_error_of_thrown _ _ _
      (ShareStore.loadInto easyBackend
        (sampleAdmit.attempt easyBackend sampleRolledBack).store true
        sampleStart)
      (.runtimeError "share store contains duplicate record")
      (by decide +kernel)
  exact (always _ reaches).loads sampleStart
    (.inr ⟨sampleParameters, easyStart_built⟩) true _ refused

end ZanoP2pool
