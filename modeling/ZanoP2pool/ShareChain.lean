import ZanoP2pool.Foundation.Effect
import ZanoP2pool.ShareValidation
import ZanoP2pool.SidechainParams
import ZanoP2pool.SidechainDifficulty

namespace ZanoP2pool

open Foundation

/-!
# The share chain

State and operations of `ShareChain`: the connected shares, the orphans that
wait for a parent, the index of orphans by parent, and the selected tip.

Mutating operations run in `ChainM`, which keeps the partially mutated chain
when an exception is thrown.  The by-reference `best_tip_changed` flag of
`connect_share` and `promote_children` is not carried: `add_prevalidated_share`
overwrites it before it returns.
-/

def kShareMaxFutureSeconds : UInt64 := 60

def kShareMaxParentBackstepSeconds : UInt64 := 60

/-- Greatest 64-bit value. -/
def kUInt64Max : UInt64 := UInt64.ofNat (2 ^ 64 - 1)

/-- Work of one share: its difficulty as a 256-bit number. -/
def shareWork (difficulty : Difficulty128) : Except Exception ChainWork :=
  if difficulty128IsZero difficulty then
    .error (.invalidArgument "share difficulty must be greater than zero")
  else
    .ok (difficulty.setWidth 256)

/--
Add two work values byte by byte from the least significant byte.  The flag is
false when a carry leaves the most significant byte.
-/
def addChainWorkChecked (left right : ChainWork) : Bool × ChainWork :=
  let summed := addWithCarry (hashBytes left).reverse
    (hashBytes right).reverse 0
  (summed.2 == 0, BitVec.ofNat 256 (ofBigEndian summed.1.reverse))

/-- Mining work that an independent trust boundary has established. -/
structure ShareWorkContext where
  zanoHeight : UInt64
  miningHeaderHash : Hash256
  networkDifficulty : Difficulty128
  deriving Repr, DecidableEq

inductive ShareDisposition where
  | connected
  | orphan
  | duplicate
  | rejected
  deriving Repr, DecidableEq

/-- Why a share was refused; `none` means it was not. -/
inductive ShareRejectReason where
  | none
  | unexpectedShareVersion
  | zeroShareDifficulty
  | zeroNetworkDifficulty
  | shareDifficultyAboveNetwork
  | unexpectedShareDifficulty
  | invalidRootHeight
  | invalidNonRootHeight
  | parentHeightMismatch
  | timestampTooFarFuture
  | timestampBeforeParentTolerance
  | zanoHeightMismatch
  | miningHeaderMismatch
  | networkDifficultyMismatch
  | powBackendUnavailable
  | invalidPow
  | cumulativeWorkOverflow
  deriving Repr, DecidableEq

def shareRejectReasonName : ShareRejectReason → String
  | .none => "none"
  | .unexpectedShareVersion => "unexpected-share-version"
  | .zeroShareDifficulty => "zero-share-difficulty"
  | .zeroNetworkDifficulty => "zero-network-difficulty"
  | .shareDifficultyAboveNetwork => "share-difficulty-above-network"
  | .unexpectedShareDifficulty => "unexpected-share-difficulty"
  | .invalidRootHeight => "invalid-root-height"
  | .invalidNonRootHeight => "invalid-non-root-height"
  | .parentHeightMismatch => "parent-height-mismatch"
  | .timestampTooFarFuture => "timestamp-too-far-future"
  | .timestampBeforeParentTolerance => "timestamp-before-parent-tolerance"
  | .zanoHeightMismatch => "zano-height-mismatch"
  | .miningHeaderMismatch => "mining-header-mismatch"
  | .networkDifficultyMismatch => "network-difficulty-mismatch"
  | .powBackendUnavailable => "pow-backend-unavailable"
  | .invalidPow => "invalid-pow"
  | .cumulativeWorkOverflow => "cumulative-work-overflow"

structure AddShareResult where
  disposition : ShareDisposition := .rejected
  rejectReason : ShareRejectReason := .none
  id : ShareId := 0
  promotedOrphans : Nat := 0
  bestTipChanged : Bool := false
  deriving Repr, DecidableEq

inductive RevalidateShareStatus where
  | validated
  | alreadyValidated
  | notConnected
  | parentUnvalidated
  | rejected
  deriving Repr, DecidableEq

structure RevalidateShareResult where
  status : RevalidateShareStatus := .notConnected
  rejectReason : ShareRejectReason := .none
  id : ShareId := 0
  deriving Repr, DecidableEq

/-- Exported validation state of one share. -/
structure ReplayValidationRecord where
  shareId : ShareId
  validation : CandidateValidation
  deriving Repr, DecidableEq

/-- A share linked to a root, with the work accumulated on its branch. -/
structure ConnectedShare where
  share : Share
  id : ShareId
  cumulativeWork : ChainWork
  powValidation : Option CandidateValidation
  validatedAncestry : Bool
  deriving Repr, DecidableEq

/-- A share buffered until its parent is connected. -/
structure OrphanShare where
  share : Share
  id : ShareId
  powValidation : Option CandidateValidation
  enforceSidechainDifficulty : Bool
  deriving Repr, DecidableEq

/-- The part of the sidechain parameters the chain enforces. -/
structure DifficultyPolicy where
  minimumShareVersion : UInt8
  maximumShareVersion : UInt8
  targetShareSeconds : UInt64
  minimumShareDifficulty : UInt64
  difficultyWindowShares : UInt64
  deriving Repr, DecidableEq

/-- Maps keyed by share identity, iterated in identity order. -/
abbrev ShareMap (α : Type) := Std.ExtTreeMap ShareId α

structure ShareChain where
  connected : ShareMap ConnectedShare := ∅
  orphans : ShareMap OrphanShare := ∅
  orphansByParent : ShareMap (List ShareId) := ∅
  bestTipId : Option ShareId := none
  difficultyPolicy : Option DifficultyPolicy := none
  parameterId : Option Hash256 := none
  deriving DecidableEq

/-- Operations on a chain: they may throw and keep what they mutated. -/
abbrev ChainM := EStateM Exception ShareChain

namespace ShareChain

/-- A chain configured with sidechain parameters the serializer accepts. -/
def ofParameters
    (backend : Backend)
    (params : SidechainParameters) :
    Except Exception ShareChain := do
  let parameterId ← sidechainId backend params
  return {
    parameterId := some parameterId
    difficultyPolicy := some {
      minimumShareVersion := params.minimumShareVersion
      maximumShareVersion := params.maximumShareVersion
      targetShareSeconds := params.targetShareSeconds
      minimumShareDifficulty := params.minimumShareDifficulty
      difficultyWindowShares := params.difficultyWindowShares
    }
  }

def find (chain : ShareChain) (id : ShareId) : Option ConnectedShare :=
  chain.connected[id]?

def findOrphanShare (chain : ShareChain) (id : ShareId) : Option Share :=
  chain.orphans[id]?.map OrphanShare.share

def bestTip (chain : ShareChain) : Option ConnectedShare :=
  chain.bestTipId.bind chain.find

def contains (chain : ShareChain) (id : ShareId) : Bool :=
  chain.connected.contains id

def isOrphan (chain : ShareChain) (id : ShareId) : Bool :=
  chain.orphans.contains id

def enforcesSidechainDifficulty (chain : ShareChain) : Bool :=
  chain.difficultyPolicy.isSome

def connectedShareIds (chain : ShareChain) : List ShareId :=
  chain.connected.keys

/--
Walk from a connected share towards the root, newest first, and collect at
most `budget` samples.
-/
def collectHistory
    (chain : ShareChain) :
    Nat → ConnectedShare →
      Except Exception (List SidechainDifficultySample)
  | 0, _ => .ok []
  | budget + 1, current =>
      let sample : SidechainDifficultySample := {
        timestamp := current.share.timestamp
        cumulativeWork := current.cumulativeWork
      }
      if isZeroShareId current.share.parentId then
        .ok [sample]
      else
        match chain.find current.share.parentId with
        | none =>
            .error (.logicError
              "connected sidechain share has a missing parent")
        | some parent => do
            let older ← collectHistory chain budget parent
            return sample :: older

/-- Most samples of 40 bytes that a vector can hold. -/
def kHistoryMaxSize : Nat := (2 ^ 63 - 1) / 40

/-- Reserve a vector for the samples of a window; too many are a length error. -/
def reserveHistory (windowShares : UInt64) : Except Exception Unit :=
  if windowShares.toNat ≤ kHistoryMaxSize then
    .ok ()
  else
    .error (.logicError "vector::reserve")

/-- Difficulty expected of a child of a parent; zero denotes a root share. -/
def expectedChildShareDifficulty
    (chain : ShareChain)
    (parentId : ShareId)
    (networkDifficulty : Difficulty128) :
    Except Exception Difficulty128 :=
  match chain.difficultyPolicy with
  | none =>
      .error (.logicError "sidechain difficulty policy is not configured")
  | some policy => do
      reserveHistory policy.difficultyWindowShares
      let history ←
        if isZeroShareId parentId then
          .ok []
        else
          match chain.find parentId with
          | none =>
              .error (.invalidArgument
                "sidechain difficulty parent is not connected")
          | some parent =>
              chain.collectHistory policy.difficultyWindowShares.toNat
                parent
      calculateNextSidechainDifficulty history
        policy.targetShareSeconds
        policy.minimumShareDifficulty
        policy.difficultyWindowShares
        networkDifficulty

/-- Checks that need only the share and the configured version range. -/
def structuralRejectReason
    (difficultyPolicy : Option DifficultyPolicy)
    (share : Share) :
    ShareRejectReason :=
  let unexpectedVersion :=
    match difficultyPolicy with
    | some policy =>
        decide (share.version < policy.minimumShareVersion) ||
          decide (share.version > policy.maximumShareVersion)
    | none => false
  if unexpectedVersion then
    .unexpectedShareVersion
  else if difficulty128IsZero share.shareDifficulty then
    .zeroShareDifficulty
  else if difficulty128IsZero share.networkDifficulty then
    .zeroNetworkDifficulty
  else if share.shareDifficulty > share.networkDifficulty then
    .shareDifficultyAboveNetwork
  else if isZeroShareId share.parentId then
    if share.shareHeight ≠ 0 then .invalidRootHeight else .none
  else if share.shareHeight = 0 then
    .invalidNonRootHeight
  else
    .none

def trustedContextRejectReason
    (share : Share)
    (trustedContext : ShareWorkContext) :
    ShareRejectReason :=
  if share.zanoHeight ≠ trustedContext.zanoHeight then
    .zanoHeightMismatch
  else if share.miningHeaderHash ≠ trustedContext.miningHeaderHash then
    .miningHeaderMismatch
  else if share.networkDifficulty ≠ trustedContext.networkDifficulty then
    .networkDifficultyMismatch
  else
    .none

def absoluteTimestampRejectReason
    (share : Share)
    (now : UInt64) :
    ShareRejectReason :=
  if share.timestamp > now ∧
      share.timestamp - now > kShareMaxFutureSeconds then
    .timestampTooFarFuture
  else
    .none

def parentTimestampRejectReason (share parent : Share) : ShareRejectReason :=
  if share.timestamp ≥ parent.timestamp then
    .none
  else if parent.timestamp - share.timestamp >
      kShareMaxParentBackstepSeconds then
    .timestampBeforeParentTolerance
  else
    .none

/-- The height rule of a non-root share, then its timestamp rule. -/
def parentLinkRejectReason (share parent : Share) : ShareRejectReason :=
  if parent.shareHeight = kUInt64Max ∨
      share.shareHeight ≠ parent.shareHeight + 1 then
    .parentHeightMismatch
  else
    parentTimestampRejectReason share parent

/--
Compare a share with the difficulty expected on its branch.  A share whose
parent is not connected is not judged here.
-/
def expectedDifficultyRejectReason
    (chain : ShareChain)
    (share : Share) :
    Except Exception ShareRejectReason :=
  if chain.difficultyPolicy.isNone then
    .ok .none
  else if !isZeroShareId share.parentId && !chain.contains share.parentId then
    .ok .none
  else do
    let expected ← chain.expectedChildShareDifficulty
      share.parentId share.networkDifficulty
    return if share.shareDifficulty = expected then .none
      else .unexpectedShareDifficulty

/-- Order of tips: more work, then greater height, then smaller identity. -/
def betterTip (candidate current : ConnectedShare) : Bool :=
  if candidate.cumulativeWork ≠ current.cumulativeWork then
    decide (candidate.cumulativeWork > current.cumulativeWork)
  else if candidate.share.shareHeight ≠ current.share.shareHeight then
    decide (candidate.share.shareHeight > current.share.shareHeight)
  else
    decide (candidate.id < current.id)

/-- The parent entry of a share about to be connected; none for a root. -/
def connectParent
    (chain : ShareChain)
    (share : Share) :
    Except Exception (Option ConnectedShare) :=
  if isZeroShareId share.parentId then
    .ok none
  else
    match chain.find share.parentId with
    | none =>
        .error (.logicError
          "connect_share called without a connected parent")
    | some parent => .ok (some parent)

/--
The entry `connect_share` would install for a share, or the reason it refuses
the share.
-/
def connectedEntry
    (chain : ShareChain)
    (share : Share)
    (id : ShareId)
    (powValidation : Option CandidateValidation)
    (enforceSidechainDifficulty : Bool) :
    Except Exception (Except ShareRejectReason ConnectedShare) := do
  let work ← shareWork share.shareDifficulty
  let parent ← chain.connectParent share
  let linkReason :=
    match parent with
    | some entry => parentLinkRejectReason share entry.share
    | none => .none
  if linkReason ≠ .none then
    return .error linkReason
  let difficultyReason ←
    if enforceSidechainDifficulty then
      chain.expectedDifficultyRejectReason share
    else
      .ok .none
  if difficultyReason ≠ .none then
    return .error difficultyReason
  let (fits, cumulativeWork) :=
    match parent with
    | some entry => addChainWorkChecked entry.cumulativeWork work
    | none => (true, work)
  if !fits then
    return .error .cumulativeWorkOverflow
  let validatedAncestry :=
    enforceSidechainDifficulty &&
      powValidation.any CandidateValidation.meetsShareDifficulty &&
      (match parent with
        | some entry => entry.validatedAncestry
        | none => true)
  return .ok {
    share, id, cumulativeWork, powValidation, validatedAncestry
  }

/-- Select a freshly connected entry as tip if it beats the current one. -/
def offerBestTip (entry : ConnectedShare) : ChainM Unit := do
  let chain ← get
  match chain.bestTipId with
  | none => set { chain with bestTipId := some entry.id }
  | some best =>
      match chain.find best with
      | none => throw (.logicError "best-tip invariant failed")
      | some current =>
          if betterTip entry current then
            set { chain with bestTipId := some entry.id }

/-- Connect a share whose parent is connected, or report why not. -/
def connectShare
    (share : Share)
    (id : ShareId)
    (powValidation : Option CandidateValidation)
    (enforceSidechainDifficulty : Bool) :
    ChainM ShareRejectReason := do
  let chain ← get
  match ← orThrow (chain.connectedEntry share id powValidation
      enforceSidechainDifficulty) with
  | .error reason => return reason
  | .ok entry =>
      if chain.contains id then
        throw (.logicError "duplicate share reached connect_share")
      set { chain with connected := chain.connected.insert id entry }
      offerBestTip entry
      return .none

/--
Connect the listed orphans one by one, in the given order; `promote` handles
the children of each orphan that was connected.  A refused orphan is dropped.
-/
def promoteEach
    (promote : ShareId → ChainM Nat) :
    List ShareId → ChainM Nat
  | [] => return 0
  | childId :: rest => do
      let chain ← get
      match chain.orphans[childId]? with
      | none => promoteEach promote rest
      | some orphan =>
          let reason ← connectShare orphan.share childId
            orphan.powValidation orphan.enforceSidechainDifficulty
          modify fun chain =>
            { chain with orphans := chain.orphans.erase childId }
          if reason = .none then
            let deeper ← promote childId
            let later ← promoteEach promote rest
            return 1 + deeper + later
          else
            promoteEach promote rest

/--
Promote the orphans waiting for a parent, recursively.  Every level removes
one entry of the index, so a depth of the index size is never exhausted.
-/
def promoteChildrenUpTo : Nat → ShareId → ChainM Nat
  | 0, _ => return 0
  | depth + 1, parentId => do
      let chain ← get
      match chain.orphansByParent[parentId]? with
      | none => return 0
      | some childIds =>
          set { chain with
            orphansByParent := chain.orphansByParent.erase parentId }
          promoteEach (promoteChildrenUpTo depth)
            (childIds.insertionSort (· ≤ ·))

def promoteChildren (parentId : ShareId) : ChainM Nat := do
  let chain ← get
  promoteChildrenUpTo chain.orphansByParent.size parentId

/-- Append an orphan to the list of a parent, creating the list if needed. -/
def indexOrphan
    (index : ShareMap (List ShareId))
    (parentId id : ShareId) :
    ShareMap (List ShareId) :=
  index.insert parentId (index[parentId]?.getD [] ++ [id])

/-- Insert a share that has passed the checks of its entry point. -/
def addPrevalidatedShare
    (backend : Backend)
    (share : Share)
    (powValidation : Option CandidateValidation)
    (enforceSidechainDifficulty : Bool) :
    ChainM AddShareResult := do
  let id ← orThrow (shareId backend share)
  let chain ← get
  if chain.contains id || chain.isOrphan id then
    return { id, disposition := .duplicate }
  let structuralReason :=
    structuralRejectReason chain.difficultyPolicy share
  if structuralReason ≠ .none then
    return { id, disposition := .rejected, rejectReason := structuralReason }
  if !isZeroShareId share.parentId && !chain.contains share.parentId then
    set { chain with
      orphans := chain.orphans.insert id {
        share, id, powValidation, enforceSidechainDifficulty }
      orphansByParent := indexOrphan chain.orphansByParent share.parentId id }
    return { id, disposition := .orphan }
  let reason ← connectShare share id powValidation enforceSidechainDifficulty
  if reason ≠ .none then
    return { id, disposition := .rejected, rejectReason := reason }
  let promotedOrphans ← promoteChildren id
  let updated ← get
  return {
    id
    disposition := .connected
    promotedOrphans
    bestTipChanged := decide (chain.bestTipId ≠ updated.bestTipId)
  }

/-- Insert a share without any proof-of-work or difficulty check. -/
def addShareUnchecked
    (backend : Backend)
    (share : Share) :
    ChainM AddShareResult :=
  addPrevalidatedShare backend share none false

/-- Link checks of a submission whose parent is already connected. -/
def submittedLinkRejectReason
    (chain : ShareChain)
    (share : Share) :
    ShareRejectReason :=
  if isZeroShareId share.parentId then
    .none
  else
    match chain.find share.parentId with
    | none => .none
    | some parent => parentLinkRejectReason share parent.share

/-- Last part of a submission: evaluate the proof of work, then insert. -/
def submitWithWork
    (backend : Backend)
    (share : Share)
    (id : ShareId)
    (trustedContext : ShareWorkContext)
    (mode : ProgPowZContextMode) :
    ChainM AddShareResult := do
  if !backend.progpowzAvailable then
    return {
      id, disposition := .rejected, rejectReason := .powBackendUnavailable }
  let validation ← orThrow (validateCandidate backend
    trustedContext.zanoHeight trustedContext.miningHeaderHash share.nonce
    (difficulty128ToDecimal share.shareDifficulty)
    (difficulty128ToDecimal trustedContext.networkDifficulty) mode)
  if !validation.meetsShareDifficulty ||
      validation.classification == .invalid then
    return { id, disposition := .rejected, rejectReason := .invalidPow }
  let chain ← get
  addPrevalidatedShare backend share (some validation)
    chain.difficultyPolicy.isSome

/-- Admit a share against a trusted work context. -/
def submitShare
    (backend : Backend)
    (share : Share)
    (trustedContext : ShareWorkContext)
    (now : UInt64)
    (mode : ProgPowZContextMode) :
    ChainM AddShareResult := do
  let id ← orThrow (shareId backend share)
  let chain ← get
  if chain.contains id || chain.isOrphan id then
    return { id, disposition := .duplicate }
  let structuralReason :=
    structuralRejectReason chain.difficultyPolicy share
  if structuralReason ≠ .none then
    return { id, disposition := .rejected, rejectReason := structuralReason }
  let contextReason := trustedContextRejectReason share trustedContext
  if contextReason ≠ .none then
    return { id, disposition := .rejected, rejectReason := contextReason }
  let timestampReason := absoluteTimestampRejectReason share now
  if timestampReason ≠ .none then
    return { id, disposition := .rejected, rejectReason := timestampReason }
  let linkReason := chain.submittedLinkRejectReason share
  if linkReason ≠ .none then
    return { id, disposition := .rejected, rejectReason := linkReason }
  let difficultyReason ←
    orThrow (chain.expectedDifficultyRejectReason share)
  if difficultyReason ≠ .none then
    return { id, disposition := .rejected, rejectReason := difficultyReason }
  submitWithWork backend share id trustedContext mode

end ShareChain

end ZanoP2pool
