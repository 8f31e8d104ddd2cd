import ZanoP2pool.Foundation.Zoom
import ZanoP2pool.HistoricalPayout
import ZanoP2pool.HistoricalWork
import ZanoP2pool.ReplayValidationStore
import ZanoP2pool.ShareChainRecovery

namespace ZanoP2pool

open Foundation

/-!
# Recovery after a restart

A node that starts again replays its shares without their validation.  The cache
restores the validation that was exported under a checkpoint of canonical Zano
history.
-/

/-- A process that starts again: its chain, its cache, its calls of the daemon. -/
structure RestartProcess where
  chain : ShareChain
  store : ReplayValidationStore
  calls : Nat := 0

abbrev RestartM := EStateM Exception RestartProcess

/-- Run a computation on the replayed chain. -/
def onReplayedChain {α : Type} (action : ChainM α) : RestartM α :=
  zoom RestartProcess.chain (fun chain process => { process with chain }) action

/-- Run a computation on the cache. -/
def onCache
    {α : Type}
    (action : EStateM Exception ReplayValidationStore α) :
    RestartM α :=
  zoom RestartProcess.store (fun store process => { process with store }) action

/-- Ask the local daemon. -/
def onDaemon {α : Type} (action : QueryM α) : RestartM α :=
  zoom RestartProcess.calls (fun calls process => { process with calls }) action

/-- A source of canonical headers; an answer may depend on the call's number. -/
abbrev CanonicalHeaders := Nat → UInt64 → Except Exception RpcCanonicalHeader

def CanonicalHeaders.lookup
    (headers : CanonicalHeaders)
    (height : UInt64) :
    QueryM RpcCanonicalHeader :=
  query fun call => headers call height

/-- One call of the daemon. -/
theorem CanonicalHeaders.lookup_eq_ok
    {headers : CanonicalHeaders}
    {height : UInt64}
    {header : RpcCanonicalHeader}
    {calls last : Nat} :
    headers.lookup height calls = .ok header last ↔
      headers calls height = .ok header ∧ last = calls + 1 := by
  unfold CanonicalHeaders.lookup query
  cases answered : headers calls height with
  | ok found => simp [answered, eq_comm]
  | error thrown => simp [answered]

section StableLookups

variable (lookup : UInt64 → QueryM RpcCanonicalHeader)

/-- The canonical parent of a work height, read twice. -/
def stableCanonicalParentForWorkHeight
    (zanoHeight : UInt64) :
    QueryM Hash256 := do
  if zanoHeight = 0 then
    throw (.invalidArgument
      "canonical-parent audit requires nonzero Zano work height")
  else
    let parentHeight := zanoHeight - 1
    let first ← lookup parentHeight
    let second ← lookup parentHeight
    if first.height ≠ parentHeight ∨ second.height ≠ parentHeight then
      throw (.runtimeError
        "canonical-parent audit returned the wrong Zano height")
    else if first.hash ≠ second.hash then
      throw (.runtimeError "canonical Zano parent changed during stable audit")
    else
      return first.hash

/-- Whether canonical history, read twice, has the block of a checkpoint. -/
def stableCanonicalCheckpointMatches
    (checkpoint : ReplayValidationCheckpoint) :
    QueryM Bool := do
  if checkpoint.blockHash = 0 then
    throw (.invalidArgument "replay-validation checkpoint hash must be nonzero")
  else
    let first ← lookup checkpoint.zanoHeight
    let second ← lookup checkpoint.zanoHeight
    if first.height ≠ checkpoint.zanoHeight ∨
        second.height ≠ checkpoint.zanoHeight then
      throw (.runtimeError
        "replay-validation checkpoint audit returned the wrong Zano height")
    else if first.hash = 0 ∨ second.hash = 0 then
      throw (.runtimeError
        "replay-validation checkpoint audit returned a zero canonical hash")
    else if first.hash ≠ second.hash then
      throw (.runtimeError
        "canonical Zano checkpoint changed during stable audit")
    else
      return first.hash = checkpoint.blockHash

end StableLookups

inductive RestartReplayValidationStatus where
  | missing
  | restored
  | stale
  deriving Repr, DecidableEq

structure RestartReplayValidationResult where
  status : RestartReplayValidationStatus := .missing
  checkpoint : Option ReplayValidationCheckpoint := none
  recordsLoaded : Nat := 0
  recordsRestored : Nat := 0
  deriving Repr, DecidableEq

inductive RestartReplayValidationPersistStatus where
  | saved
  | canonicalChanged
  | checkpointTooOld
  deriving Repr, DecidableEq

structure RestartReplayValidationPersistResult where
  status : RestartReplayValidationPersistStatus := .saved
  checkpoint : Option ReplayValidationCheckpoint := none
  recordsExported : Nat := 0
  recordsSaved : Nat := 0
  deriving Repr, DecidableEq

section Cache

variable (backend : Backend)
variable (params : SidechainParameters)
variable (lookup : UInt64 → QueryM RpcCanonicalHeader)
variable (fault : Option Exception)

/-- Restore the cached validation when its checkpoint is still canonical. -/
def restoreReplayedValidationCache :
    RestartM RestartReplayValidationResult := do
  let process ← get
  let configured ← orThrow
    (process.chain.matchesSidechainParameters backend params)
  if !configured then
    throw (.runtimeError
      "replay-validation cache sidechain parameter mismatch")
  else
    match ← orThrow (process.store.load backend fault) with
    | none => return {}
    | some snapshot =>
        let loaded : RestartReplayValidationResult :=
          { checkpoint := some snapshot.checkpoint
            recordsLoaded := snapshot.records.length }
        if ← onDaemon
            (stableCanonicalCheckpointMatches lookup snapshot.checkpoint) then
          let recordsRestored ← onReplayedChain
            (ShareChain.restoreReplayValidation backend snapshot.records)
          return { loaded with status := .restored, recordsRestored }
        else
          return { loaded with status := .stale }

/-- Whether no exported share was mined above the height of the checkpoint. -/
def checkpointCovers
    (chain : ShareChain)
    (checkpointWorkHeight : UInt64) :
    List ReplayValidationRecord → Except Exception Bool
  | [] => return true
  | record :: rest =>
      match chain.find record.shareId with
      | none =>
          throw (.logicError
            "replay-validation export record is no longer connected")
      | some connected =>
          if connected.share.zanoHeight = 0 then
            throw (.logicError
              "validated replay share has zero Zano work height")
          else if connected.share.zanoHeight > checkpointWorkHeight then
            return false
          else
            checkpointCovers chain checkpointWorkHeight rest

/-- Export the validated shares under the canonical parent of a work height. -/
def persistReplayedValidationCache
    (checkpointWorkHeight : UInt64)
    (expectedParentHash : Hash256) :
    RestartM RestartReplayValidationPersistResult := do
  let process ← get
  let configured ← orThrow
    (process.chain.matchesSidechainParameters backend params)
  if !configured then
    throw (.runtimeError
      "replay-validation persistence sidechain parameter mismatch")
  else if checkpointWorkHeight = 0 then
    throw (.invalidArgument ("replay-validation persistence requires nonzero " ++
      "checkpoint work height"))
  else if expectedParentHash = 0 then
    throw (.invalidArgument ("replay-validation persistence expected parent " ++
      "hash must be nonzero"))
  else
    let stableParent ← onDaemon
      (stableCanonicalParentForWorkHeight lookup checkpointWorkHeight)
    if stableParent = 0 then
      throw (.runtimeError
        "replay-validation persistence canonical parent is zero")
    else
      let checkpoint : ReplayValidationCheckpoint :=
        { zanoHeight := checkpointWorkHeight - 1, blockHash := stableParent }
      if stableParent ≠ expectedParentHash then
        return { status := .canonicalChanged, checkpoint := some checkpoint }
      else
        let records ← orThrow
          (ShareChain.replayValidationSnapshot backend process.chain)
        let covered ← orThrow
          (checkpointCovers process.chain checkpointWorkHeight records)
        if !covered then
          return {
            status := .checkpointTooOld
            checkpoint := some checkpoint
            recordsExported := records.length }
        else
          onCache (ReplayValidationStore.save backend fault
            { checkpoint, records })
          return {
            checkpoint := some checkpoint
            recordsExported := records.length
            recordsSaved := records.length }

end Cache

end ZanoP2pool
