import ZanoP2pool.Foundation.Effect
import ZanoP2pool.P2pMiningContext

namespace ZanoP2pool

open Foundation

/-!
# Audit of historical work

A proposal for a past height is compared with what the local daemon says about
that height and with what this node observed then.

The daemon answers each call as it likes: an answer depends on how many calls were
made before it.
-/

structure RpcCanonicalHeader where
  height : UInt64
  hash : Hash256
  deriving Repr, DecidableEq

structure RpcHistoricalPowContext where
  height : UInt64
  parentHash : Hash256
  networkDifficulty : Difficulty128
  blockRewardWithoutFee : UInt64
  confirmingPowHeight : UInt64
  deriving Repr, DecidableEq

/-- The local sources of a node; each answer may depend on the call's number. -/
structure LocalSources where
  observations :
    Nat → P2pMiningContextProposal → Except Exception (List P2pMiningAnchor)
  canonicalHeader : Nat → UInt64 → Except Exception RpcCanonicalHeader
  historicalPow :
    Nat → UInt64 → Except Exception (Option RpcHistoricalPowContext)

/-- Computations that call local sources; the state counts the calls. -/
abbrev QueryM := EStateM Exception Nat

/-- One call of a local source. -/
def query {α : Type} (answer : Nat → Except Exception α) : QueryM α :=
  fun calls =>
    match answer calls with
    | .ok value => .ok value (calls + 1)
    | .error thrown => .error thrown (calls + 1)

def kProgPowZEpochLength : UInt64 := 30000

def progpowzEpoch (height : UInt64) : UInt64 :=
  height / kProgPowZEpochLength

/-- The seed of the epoch of a height. -/
def progpowzSeed
    (backend : Backend)
    (height : UInt64) :
    Except Exception Hash256 :=
  if height.toNat > 2 ^ 31 - 1 then
    throw (.outOfRange
      "height exceeds the block-number range supported by ProgPoWZ")
  else
    return Nat.iterate (fun seed => backend.cnFastHash (hashBytes seed))
      (progpowzEpoch height).toNat 0

inductive HistoricalParentStatus where
  | parentMatchedUntrusted
  | parentMismatch
  | parentChangedDuringCheck
  deriving Repr, DecidableEq

structure HistoricalParentResult where
  status : HistoricalParentStatus := .parentMismatch
  miningHeaderHash : Hash256 := 0
  deriving Repr, DecidableEq

/-- Compare the parent of a proposal with two samples of canonical history. -/
def auditHistoricalParent
    (backend : Backend)
    (json : JsonBackend)
    (proposal : P2pMiningContextProposal)
    (lookup : UInt64 → QueryM RpcCanonicalHeader) :
    QueryM HistoricalParentResult := do
  if proposal.zanoHeight = 0 then
    throw (.runtimeError "historical work has no parent height")
  else
    let miningHeaderHash ← orThrow
      (validateP2pMiningContextStructure backend json proposal)
    let height := proposal.zanoHeight - 1
    let first ← lookup height
    let second ← lookup height
    if first.height ≠ height ∨ second.height ≠ height ∨ first.hash = 0 ∨
        second.hash = 0 then
      throw (.runtimeError "invalid canonical parent lookup")
    else if first.hash ≠ second.hash then
      return { status := .parentChangedDuringCheck, miningHeaderHash }
    else if first.hash = proposal.prevHash then
      return { status := .parentMatchedUntrusted, miningHeaderHash }
    else
      return { miningHeaderHash }

inductive HistoricalAnchorStatus where
  | anchorMatchedUntrusted
  | parentMismatch
  | parentChangedDuringCheck
  | seedMismatch
  | localObservationMissing
  | localObservationConflict
  | localObservationMismatch
  | canonicalPowContextUnavailable
  | canonicalPowContextMismatch
  deriving Repr, DecidableEq

structure HistoricalAnchorResult where
  status : HistoricalAnchorStatus := .localObservationMissing
  miningHeaderHash : Hash256 := 0
  matchingObservations : Nat := 0
  deriving Repr, DecidableEq

/--
The observation that the matching ones agree on, with their number; none when two
of them differ or one has another seed.
-/
def agreedObservation
    (seed : Hash256) :
    List P2pMiningAnchor → Option P2pMiningAnchor → Nat →
      Nat × Option (Option P2pMiningAnchor)
  | [], expected, count => (count, some expected)
  | observation :: rest, expected, count =>
      if observation.seed ≠ seed ∨ expected.any (observation ≠ ·) then
        (count + 1, none)
      else
        agreedObservation seed rest (some observation) (count + 1)

/-- Compare a proposal with the reconstruction of its template. -/
def auditCanonicalPowContext
    (proposal : P2pMiningContextProposal)
    (found : HistoricalAnchorResult)
    (historicalPowLookup :
      Option (UInt64 → QueryM (Option RpcHistoricalPowContext))) :
    QueryM HistoricalAnchorResult :=
  match historicalPowLookup with
  | none => return { found with status := .localObservationMissing }
  | some lookup => do
      match ← lookup proposal.zanoHeight with
      | none => return { found with status := .canonicalPowContextUnavailable }
      | some historical =>
          if historical.height ≠ proposal.zanoHeight ∨
              historical.parentHash ≠ proposal.prevHash ∨
              historical.networkDifficulty ≠ proposal.networkDifficulty ∨
              historical.blockRewardWithoutFee ≠
                proposal.blockRewardWithoutFee ∨
              historical.confirmingPowHeight < proposal.zanoHeight then
            return { found with status := .canonicalPowContextMismatch }
          else
            return { found with status := .anchorMatchedUntrusted }

/-- The status of an anchor whose parent does not match. -/
def unmatchedParentStatus :
    HistoricalParentStatus → HistoricalAnchorStatus
  | .parentMismatch => .parentMismatch
  | _ => .parentChangedDuringCheck

def auditHistoricalLocalAnchor
    (backend : Backend)
    (json : JsonBackend)
    (proposal : P2pMiningContextProposal)
    (observations : List P2pMiningAnchor)
    (lookup : UInt64 → QueryM RpcCanonicalHeader)
    (historicalPowLookup :
      Option (UInt64 → QueryM (Option RpcHistoricalPowContext))) :
    QueryM HistoricalAnchorResult := do
  let seed ← orThrow (progpowzSeed backend proposal.zanoHeight)
  let parent ← auditHistoricalParent backend json proposal lookup
  let audited : HistoricalAnchorResult :=
    { miningHeaderHash := parent.miningHeaderHash }
  if parent.status ≠ .parentMatchedUntrusted then
    return { audited with status := unmatchedParentStatus parent.status }
  else if proposal.seed ≠ seed then
    return { audited with status := .seedMismatch }
  else
    let agreed := agreedObservation seed
      (observations.filter fun observation =>
        observation.zanoHeight = proposal.zanoHeight ∧
          observation.prevHash = proposal.prevHash) none 0
    let found := { audited with matchingObservations := agreed.1 }
    match agreed.2 with
    | none => return { found with status := .localObservationConflict }
    | some (some expected) =>
        if proposal.networkDifficulty ≠ expected.networkDifficulty ∨
            proposal.blockRewardWithoutFee ≠
              expected.blockRewardWithoutFee then
          return { found with status := .localObservationMismatch }
        else
          return { found with status := .anchorMatchedUntrusted }
    | some none =>
        auditCanonicalPowContext proposal found historicalPowLookup

end ZanoP2pool
