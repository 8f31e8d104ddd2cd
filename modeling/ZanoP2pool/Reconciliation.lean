import ZanoP2pool.P2pShare
import ZanoP2pool.PplnsCoinbase

namespace ZanoP2pool

open Foundation

/-!
# Reconciliation with canonical Zano history

After a reorganization of the Zano chain the node prunes the subtrees mined on
displaced parents and then revokes their trusted work.  Stale shares are found
through the parents recorded in the registry, so pruning comes first.
-/

/-- The payout that local work is expected to make. -/
structure PayoutExpectation where
  payout : Option PayoutPublicKeys := none
  plan : Option PplnsCoinbasePlan := none
  parentId : Option ShareId := none
  deriving Repr, DecidableEq

/-- The part of the node that reconciliation changes. -/
structure ConsensusState where
  chain : ShareChain := {}
  trustedWork : P2pTrustedWorkRegistry := {}
  expected : PayoutExpectation := {}

abbrev ConsensusM := EStateM Exception ConsensusState

/-- Run a computation on the chain of the node. -/
def onChain
    {α : Type}
    (action : ChainM α) :
    ConsensusM α :=
  fun state =>
    match action state.chain with
    | .ok value chain => .ok value { state with chain }
    | .error thrown chain => .error thrown { state with chain }

structure P2pCanonicalReconciliationResult where
  prunedConnectedShares : Nat
  revokedTrustedWork : Nat
  deriving Repr, DecidableEq

namespace ShareChain

/-- Whether one identity comes before another when roots are pruned. -/
def pruneBefore (chain : ShareChain) (left right : ShareId) : Prop :=
  match chain.find left, chain.find right with
  | some leftShare, some rightShare =>
      if leftShare.share.shareHeight ≠ rightShare.share.shareHeight then
        leftShare.share.shareHeight < rightShare.share.shareHeight
      else
        left ≤ right
  | _, _ => left ≤ right

instance (chain : ShareChain) : DecidableRel chain.pruneBefore := by
  intro left right
  unfold pruneBefore
  split
  · exact inferInstance
  · exact inferInstance

/-- The connected identities, oldest first. -/
def pruneOrder (chain : ShareChain) : List ShareId :=
  chain.connectedShareIds.insertionSort chain.pruneBefore

/-- Prune the subtree of every listed share that is connected and stale. -/
def pruneStale (stale : Share → Bool) : List ShareId → ChainM Nat
  | [] => return 0
  | id :: rest => do
      let chain ← get
      match chain.find id with
      | none => pruneStale stale rest
      | some connected =>
          if stale connected.share then do
            let removed ← pruneConnectedSubtreeIds id
            let pruned ← pruneStale stale rest
            return removed.length + pruned
          else
            pruneStale stale rest

end ShareChain

/-- Prune stale shares, then revoke trusted work. -/
def reconcile
    (stale : P2pTrustedWorkRegistry → Share → Bool)
    (revoke : P2pTrustedWorkRegistry → Nat × P2pTrustedWorkRegistry)
    (resets : P2pCanonicalReconciliationResult → Bool) :
    ConsensusM P2pCanonicalReconciliationResult := do
  let state ← get
  let pruned ← onChain (ShareChain.pruneStale (stale state.trustedWork)
    state.chain.pruneOrder)
  let revocation := revoke state.trustedWork
  let result := {
    prunedConnectedShares := pruned, revokedTrustedWork := revocation.1 }
  modify fun state =>
    { state with
      trustedWork := revocation.2
      expected := if resets result then {} else state.expected }
  return result

/-- Whether a share was mined at a height on a parent that is not canonical. -/
def minedOnDisplacedParent
    (zanoHeight : UInt64)
    (canonicalParentHash : Hash256)
    (trustedWork : P2pTrustedWorkRegistry)
    (share : Share) :
    Bool :=
  share.zanoHeight = zanoHeight ∧
    (trustedWork.findZanoParentHash share.zanoHeight share.miningHeaderHash
      share.parentId).any (· ≠ canonicalParentHash)

def reconcileCanonicalParent
    (zanoHeight : UInt64)
    (canonicalParentHash : Hash256) :
    ConsensusM P2pCanonicalReconciliationResult :=
  reconcile (minedOnDisplacedParent zanoHeight canonicalParentHash)
    (P2pTrustedWorkRegistry.eraseZanoParentMismatch zanoHeight
      canonicalParentHash)
    fun result => result.prunedConnectedShares ≠ 0

def reconcileUnavailableWorkHeight
    (zanoHeight : UInt64) :
    ConsensusM P2pCanonicalReconciliationResult :=
  reconcile (fun _ share => share.zanoHeight = zanoHeight)
    (P2pTrustedWorkRegistry.eraseZanoHeight zanoHeight)
    fun result =>
      result.prunedConnectedShares ≠ 0 ∨ result.revokedTrustedWork ≠ 0

def reconcileUnavailableWorkAbove
    (maximumZanoHeight : UInt64) :
    ConsensusM P2pCanonicalReconciliationResult :=
  reconcile (fun _ share => maximumZanoHeight < share.zanoHeight)
    (P2pTrustedWorkRegistry.eraseZanoHeightsAbove maximumZanoHeight)
    fun result =>
      result.prunedConnectedShares ≠ 0 ∨ result.revokedTrustedWork ≠ 0

/-- The heights that an audit compares with canonical history. -/
def auditedHeights
    (maximumWorkHeight : UInt64)
    (trustedWork : P2pTrustedWorkRegistry) :
    List UInt64 :=
  trustedWork.provenanceZanoHeights.filter fun height =>
    height ≠ 0 ∧ height ≤ maximumWorkHeight

/-- Reconcile a list of heights with their canonical parents. -/
def reconcileCanonicalParents
    (canonicalParent : UInt64 → Hash256) :
    List UInt64 → ConsensusM Unit
  | [] => return ()
  | height :: rest => do
      let _ ← reconcileCanonicalParent height (canonicalParent height)
      reconcileCanonicalParents canonicalParent rest

/-- The reconciliation of a reorganization, for the audited heights. -/
def reconcileReorg
    (canonicalParent : UInt64 → Hash256)
    (heights : List UInt64)
    (maximumWorkHeight : UInt64) :
    ConsensusM Unit := do
  reconcileCanonicalParents canonicalParent heights
  let _ ← reconcileUnavailableWorkAbove maximumWorkHeight

end ZanoP2pool
