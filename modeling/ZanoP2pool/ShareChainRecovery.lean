import ZanoP2pool.ShareChain

namespace ZanoP2pool

open Foundation

/-!
# Recovery operations of the share chain

Upgrading replayed shares in place, exporting and restoring validation state,
the persistence snapshot, and removal of a connected subtree.
-/

namespace ShareChain

/-- Parent checks of a revalidation; `none` means they pass. -/
def revalidateParentResult
    (chain : ShareChain)
    (id : ShareId)
    (share : Share) :
    Option RevalidateShareResult :=
  if isZeroShareId share.parentId then
    none
  else
    match chain.find share.parentId with
    | none =>
        some {
          id, status := .rejected, rejectReason := .parentHeightMismatch }
    | some parent =>
        if !parent.validatedAncestry then
          some { id, status := .parentUnvalidated }
        else if parentLinkRejectReason share parent.share ≠ .none then
          some {
            id, status := .rejected
            rejectReason := parentLinkRejectReason share parent.share }
        else
          none

/-- Last part of a revalidation: evaluate the proof of work, then upgrade. -/
def revalidateWithWork
    (backend : Backend)
    (id : ShareId)
    (entry : ConnectedShare)
    (trustedContext : ShareWorkContext)
    (mode : ProgPowZContextMode) :
    ChainM RevalidateShareResult := do
  if !backend.progpowzAvailable then
    return {
      id, status := .rejected, rejectReason := .powBackendUnavailable }
  let validation ← orThrow (validateCandidate backend
    trustedContext.zanoHeight trustedContext.miningHeaderHash
    entry.share.nonce
    (difficulty128ToDecimal entry.share.shareDifficulty)
    (difficulty128ToDecimal trustedContext.networkDifficulty) mode)
  if !validation.meetsShareDifficulty ||
      validation.classification == .invalid then
    return { id, status := .rejected, rejectReason := .invalidPow }
  modify fun chain => { chain with
    connected := chain.connected.insert id { entry with
      powValidation := some validation
      validatedAncestry := true } }
  return { id, status := .validated }

/--
Re-run the admission checks for a connected share and install fresh validation
state when they all pass.
-/
def revalidateConnectedShare
    (backend : Backend)
    (id : ShareId)
    (trustedContext : ShareWorkContext)
    (now : UInt64)
    (mode : ProgPowZContextMode) :
    ChainM RevalidateShareResult := do
  let chain ← get
  match chain.find id with
  | none => return { id, status := .notConnected }
  | some entry =>
      if entry.validatedAncestry then
        return { id, status := .alreadyValidated }
      if chain.difficultyPolicy.isNone then
        return {
          id, status := .rejected
          rejectReason := .unexpectedShareDifficulty }
      let share := entry.share
      let structuralReason :=
        structuralRejectReason chain.difficultyPolicy share
      if structuralReason ≠ .none then
        return { id, status := .rejected, rejectReason := structuralReason }
      let contextReason := trustedContextRejectReason share trustedContext
      if contextReason ≠ .none then
        return { id, status := .rejected, rejectReason := contextReason }
      let timestampReason := absoluteTimestampRejectReason share now
      if timestampReason ≠ .none then
        return { id, status := .rejected, rejectReason := timestampReason }
      match chain.revalidateParentResult id share with
      | some result => return result
      | none =>
          let difficultyReason ←
            orThrow (chain.expectedDifficultyRejectReason share)
          if difficultyReason ≠ .none then
            return {
              id, status := .rejected, rejectReason := difficultyReason }
          revalidateWithWork backend id entry trustedContext mode

/-- Height first, then identity: the parent-first order of exports. -/
def exportsBefore
    (left right : ShareId × Share) :
    Prop :=
  left.2.shareHeight < right.2.shareHeight ∨
    left.2.shareHeight = right.2.shareHeight ∧ left.1 ≤ right.1

instance : DecidableRel exportsBefore := by
  intro left right
  unfold exportsBefore
  infer_instance

/-- The export order on shares paired with their validation state. -/
def recordBefore
    (left right : Share × ReplayValidationRecord) :
    Prop :=
  exportsBefore (left.2.shareId, left.1) (right.2.shareId, right.1)

instance : DecidableRel recordBefore := by
  intro left right
  unfold recordBefore
  infer_instance

/-- Check one validated entry before it is exported. -/
def exportEntry
    (backend : Backend)
    (chain : ShareChain)
    (entry : ConnectedShare) :
    Except Exception (Share × ReplayValidationRecord) :=
  match entry.powValidation with
  | none =>
      .error (.logicError
        "validated replay share has inconsistent PoW cache")
  | some validation =>
      if !replayValidationConsistent validation then
        .error (.logicError
          "validated replay share has inconsistent PoW cache")
      else do
        let id ← shareId backend entry.share
        if id ≠ entry.id then
          .error (.logicError
            "connected replay-validation ShareId invariant failed")
        else if !isZeroShareId entry.share.parentId &&
            !(chain.find entry.share.parentId).any
              ConnectedShare.validatedAncestry then
          .error (.logicError
            "validated replay share has unvalidated parent")
        else
          .ok (entry.share, { shareId := entry.id, validation })

/-- Validated entries in identity order. -/
def validatedEntries (chain : ShareChain) : List ConnectedShare :=
  (chain.connected.toList.map Prod.snd).filter
    ConnectedShare.validatedAncestry

/--
Validation state of every validated share, ordered by height and identity.
-/
def replayValidationSnapshot
    (backend : Backend)
    (chain : ShareChain) :
    Except Exception (List ReplayValidationRecord) :=
  if chain.difficultyPolicy.isNone then
    .error (.logicError
      "replay-validation snapshot requires configured sidechain policy")
  else do
    let validated ←
      chain.validatedEntries.mapM (exportEntry backend chain)
    return (validated.insertionSort recordBefore).map Prod.snd

/-- First invariant pass of a restore over one validated entry. -/
def checkExistingEntry
    (backend : Backend)
    (item : ShareId × ConnectedShare) :
    Except Exception Unit :=
  match item.2.powValidation with
  | none =>
      .error (.logicError
        "existing validated replay share has inconsistent PoW cache")
  | some validation =>
      if !replayValidationConsistent validation then
        .error (.logicError
          "existing validated replay share has inconsistent PoW cache")
      else do
        let id ← shareId backend item.2.share
        if id ≠ item.1 then
          .error (.logicError "existing connected ShareId invariant failed")
        else
          .ok ()

/-- Second invariant pass of a restore over one validated entry. -/
def checkExistingParent
    (chain : ShareChain)
    (item : ShareId × ConnectedShare) :
    Except Exception Unit :=
  if !isZeroShareId item.2.share.parentId &&
      !(chain.find item.2.share.parentId).any
        ConnectedShare.validatedAncestry then
    .error (.logicError
      "existing validated ancestry has invalid parent state")
  else
    .ok ()

/-- Resolve one restored record to its connected entry. -/
def resolveRecord
    (backend : Backend)
    (chain : ShareChain)
    (seen : List ShareId)
    (record : ReplayValidationRecord) :
    Except Exception (Share × ReplayValidationRecord) :=
  if isZeroShareId record.shareId then
    .error (.runtimeError "replay-validation restore contains zero ShareId")
  else if record.shareId ∈ seen then
    .error (.runtimeError
      "replay-validation restore contains duplicate ShareId")
  else if !replayValidationConsistent record.validation then
    .error (.runtimeError
      "replay-validation restore contains inconsistent PoW state")
  else
    match chain.find record.shareId with
    | none =>
        .error (.runtimeError
          "replay-validation restore ShareId is not connected")
    | some entry => do
        let id ← shareId backend entry.share
        if id ≠ record.shareId then
          .error (.logicError
            "replay-validation restore ShareId invariant failed")
        else
          .ok (entry.share, record)

/-- Resolve the records in input order, refusing a repeated identity. -/
def resolveRecords
    (backend : Backend)
    (chain : ShareChain) :
    List ShareId → List ReplayValidationRecord →
      Except Exception (List (Share × ReplayValidationRecord))
  | _, [] => .ok []
  | seen, record :: rest => do
      let resolved ← resolveRecord backend chain seen record
      let later ← resolveRecords backend chain
        (record.shareId :: seen) rest
      return resolved :: later

/-- Parent checks of the preflight of one record. -/
def preflightParent
    (chain : ShareChain)
    (prospective : List ShareId)
    (share : Share) :
    Except Exception Unit :=
  if isZeroShareId share.parentId then
    .ok ()
  else
    match chain.find share.parentId with
    | none =>
        .error (.runtimeError
          "replay-validation restore parent is not connected")
    | some parent =>
        if share.parentId ∉ prospective then
          .error (.runtimeError
            "replay-validation restore parent is not validated")
        else if parent.share.shareHeight = kUInt64Max ∨
            share.shareHeight ≠ parent.share.shareHeight + 1 then
          .error (.runtimeError
            "replay-validation restore parent height mismatch")
        else if parentTimestampRejectReason share parent.share ≠ .none then
          .error (.runtimeError
            ("replay-validation restore parent rejection: " ++
              shareRejectReasonName
                (parentTimestampRejectReason share parent.share)))
        else
          .ok ()

/-- Difficulty check of the preflight of one record. -/
def preflightDifficulty
    (chain : ShareChain)
    (share : Share) :
    Except Exception Unit := do
  let difficultyReason ← chain.expectedDifficultyRejectReason share
  if difficultyReason ≠ .none then
    .error (.runtimeError
      ("replay-validation restore difficulty rejection: " ++
        shareRejectReasonName difficultyReason))
  else
    .ok ()

/--
Preflight one record against the shares validated so far, counting the records
before it as validated.
-/
def preflightRecord
    (chain : ShareChain)
    (prospective : List ShareId)
    (record : ReplayValidationRecord) :
    Except Exception Unit :=
  match chain.find record.shareId with
  | none => .error (.outOfRange "map::at")
  | some entry =>
      if entry.validatedAncestry then
        if entry.powValidation.any
            (replayValidationEqual · record.validation) then
          .ok ()
        else
          .error (.runtimeError
            "replay-validation restore conflicts with already-validated state")
      else
        let structuralReason :=
          structuralRejectReason chain.difficultyPolicy entry.share
        if structuralReason ≠ .none then
          .error (.runtimeError
            ("replay-validation restore structural rejection: " ++
              shareRejectReasonName structuralReason))
        else do
          preflightParent chain prospective entry.share
          preflightDifficulty chain entry.share

/-- Preflight the records in order, each extending the prospective set. -/
def preflightRecords
    (chain : ShareChain) :
    List ShareId → List ReplayValidationRecord → Except Exception Unit
  | _, [] => .ok ()
  | prospective, record :: rest => do
      preflightRecord chain prospective record
      preflightRecords chain (record.shareId :: prospective) rest

/-- Install the validation of one preflighted record. -/
def applyRecord (record : ReplayValidationRecord) : ChainM Nat := do
  let chain ← get
  match chain.find record.shareId with
  | none => throw (.outOfRange "map::at")
  | some entry =>
      if entry.validatedAncestry then
        return 0
      set { chain with
        connected := chain.connected.insert record.shareId { entry with
          powValidation := some record.validation
          validatedAncestry := true } }
      return 1

/-- Install the records in order and count the entries that changed. -/
def applyRecords : List ReplayValidationRecord → ChainM Nat
  | [] => return 0
  | record :: rest => do
      let changed ← applyRecord record
      let later ← applyRecords rest
      return changed + later

/-- All checks of a restore, ending in the records in application order. -/
def preflightRestore
    (backend : Backend)
    (chain : ShareChain)
    (records : List ReplayValidationRecord) :
    Except Exception (List ReplayValidationRecord) :=
  if chain.difficultyPolicy.isNone then
    .error (.logicError
      "replay-validation restore requires configured sidechain policy")
  else do
    let existing := chain.connected.toList.filter fun item =>
      item.2.validatedAncestry
    existing.forM (checkExistingEntry backend)
    existing.forM (checkExistingParent chain)
    let resolved ← resolveRecords backend chain [] records
    let ordered := (resolved.insertionSort recordBefore).map Prod.snd
    preflightRecords chain (existing.map Prod.fst) ordered
    return ordered

/--
Restore exported validation state.  Every check runs before the first record
is applied; the result is the number of shares that were upgraded.
-/
def restoreReplayValidation
    (backend : Backend)
    (records : List ReplayValidationRecord) :
    ChainM Nat := do
  if records.isEmpty then
    return 0
  let chain ← get
  let ordered ← orThrow (chain.preflightRestore backend records)
  applyRecords ordered

/--
Every share that should survive persistence: connected shares and unresolved
orphans, ordered by height and identity.
-/
def persistenceSnapshot (chain : ShareChain) : List Share :=
  let records :=
    chain.connected.toList.map (fun item => (item.1, item.2.share)) ++
      chain.orphans.toList.map (fun item => (item.1, item.2.share))
  (records.insertionSort exportsBefore).map Prod.snd

/-- Connected children of a share, in identity order. -/
def childIds (chain : ShareChain) (parentId : ShareId) : List ShareId :=
  (chain.connected.toList.filter fun item =>
    !isZeroShareId item.2.share.parentId &&
      item.2.share.parentId == parentId).map Prod.fst

/--
Breadth-first closure of a queue under connected children.  Every round takes
one element off the front, and every share enters the queue once, so that a budget
of the connected size is never exhausted.
-/
def subtreeFrom (chain : ShareChain) : Nat → List ShareId → List ShareId
  | 0, queue => queue
  | _, [] => []
  | budget + 1, id :: queue =>
      id :: subtreeFrom chain budget (queue ++ chain.childIds id)

/-- One step of the tip recomputation over the remaining entries. -/
def reselectTip
    (remaining : ShareMap ConnectedShare)
    (best : Option ShareId)
    (item : ShareId × ConnectedShare) :
    Except Exception (Option ShareId) :=
  match best with
  | none => .ok (some item.1)
  | some current =>
      match remaining[current]? with
      | none =>
          .error (.logicError "best-tip recomputation invariant failed")
      | some entry =>
          .ok (if betterTip item.2 entry then some item.1 else some current)

/--
Remove a connected share with all its connected descendants, reselect the tip,
and return the removed identities in identity order.
-/
def pruneConnectedSubtreeIds (rootId : ShareId) : ChainM (List ShareId) := do
  let chain ← get
  if !chain.contains rootId then
    return []
  let removed := chain.subtreeFrom chain.connected.size [rootId]
  let remaining := removed.foldl (·.erase ·) chain.connected
  set { chain with connected := remaining, bestTipId := none }
  let best ← orThrow (remaining.toList.foldlM (reselectTip remaining) none)
  modify fun chain => { chain with bestTipId := best }
  return removed.insertionSort (· ≤ ·)

end ShareChain

end ZanoP2pool
