import ZanoP2pool.ShareChainRecovery

namespace ZanoP2pool

open Foundation

/-!
# Trusted work and shares from peers

The registry holds the work contexts this node has validated, each under its
height, its mining header and the sidechain parent it was validated for.  A share
from a peer is submitted with the context that the registry holds for exactly
these three values.
-/

/-- Key of a trusted work context. -/
structure TrustedWorkKey where
  zanoHeight : UInt64
  miningHeaderHash : Hash256
  parentId : ShareId
  deriving Repr, DecidableEq

/-- Keys are ordered by height, then header, then parent. -/
instance : Ord TrustedWorkKey where
  compare :=
    compareLex (compareOn TrustedWorkKey.zanoHeight)
      (compareLex (compareOn TrustedWorkKey.miningHeaderHash)
        (compareOn TrustedWorkKey.parentId))

instance : Std.TransOrd TrustedWorkKey :=
  inferInstanceAs (Std.TransCmp
    (compareLex (compareOn TrustedWorkKey.zanoHeight)
      (compareLex (compareOn TrustedWorkKey.miningHeaderHash)
        (compareOn TrustedWorkKey.parentId))))

instance : Std.LawfulEqOrd TrustedWorkKey where
  eq_of_compare := by
    intro first second same
    obtain ⟨heights, rest⟩ := compareLex_eq_eq.mp same
    obtain ⟨headers, parents⟩ := compareLex_eq_eq.mp rest
    obtain ⟨⟩ := first
    obtain ⟨⟩ := second
    simp only [compareOn, Std.LawfulEqOrd.compare_eq_iff_eq]
      at heights headers parents
    simp [heights, headers, parents]

/-- A trusted context with the Zano parent that authorized it, if recorded. -/
structure TrustedWorkEntry where
  context : ShareWorkContext
  zanoParentHash : Option Hash256
  deriving Repr, DecidableEq

structure P2pTrustedWorkRegistry where
  contexts : Std.ExtTreeMap TrustedWorkKey TrustedWorkEntry := ∅

namespace P2pTrustedWorkRegistry

/-- The key under which a context is trusted for a sidechain parent. -/
def keyOf (context : ShareWorkContext) (parentId : ShareId) : TrustedWorkKey where
  zanoHeight := context.zanoHeight
  miningHeaderHash := context.miningHeaderHash
  parentId := parentId

/-- Trust a context without recording a Zano parent. -/
def remember
    (registry : P2pTrustedWorkRegistry)
    (context : ShareWorkContext)
    (parentId : ShareId) :
    Except Exception P2pTrustedWorkRegistry :=
  if difficulty128IsZero context.networkDifficulty then
    throw (.runtimeError
      "trusted P2P work context has zero network difficulty")
  else
    match registry.contexts[keyOf context parentId]? with
    | some entry =>
        if entry.context.networkDifficulty ≠ context.networkDifficulty then
          throw (.runtimeError "conflicting trusted P2P work context")
        else
          return registry
    | none =>
        return {
          contexts := registry.contexts.insert (keyOf context parentId)
            { context, zanoParentHash := none } }

/-- Trust a context and record the Zano parent that authorized it. -/
def rememberWithProvenance
    (registry : P2pTrustedWorkRegistry)
    (context : ShareWorkContext)
    (parentId : ShareId)
    (zanoParentHash : Hash256) :
    Except Exception P2pTrustedWorkRegistry :=
  if difficulty128IsZero context.networkDifficulty then
    throw (.runtimeError
      "trusted P2P work context has zero network difficulty")
  else
    match registry.contexts[keyOf context parentId]? with
    | some entry =>
        if entry.context.networkDifficulty ≠ context.networkDifficulty then
          throw (.runtimeError "conflicting trusted P2P work context")
        else if entry.zanoParentHash.any (· ≠ zanoParentHash) then
          throw (.runtimeError
            "conflicting trusted P2P Zano parent provenance")
        else
          return {
            contexts := registry.contexts.insert (keyOf context parentId)
              { entry with zanoParentHash := some zanoParentHash } }
    | none =>
        return {
          contexts := registry.contexts.insert (keyOf context parentId)
            { context, zanoParentHash := some zanoParentHash } }

/-- The context trusted for a height, a header and a parent. -/
def find
    (registry : P2pTrustedWorkRegistry)
    (zanoHeight : UInt64)
    (miningHeaderHash : Hash256)
    (parentId : ShareId) :
    Option ShareWorkContext :=
  (registry.contexts[
    ({ zanoHeight, miningHeaderHash, parentId } : TrustedWorkKey)]?).map
      TrustedWorkEntry.context

/-- The recorded Zano parent of a trusted context. -/
def findZanoParentHash
    (registry : P2pTrustedWorkRegistry)
    (zanoHeight : UInt64)
    (miningHeaderHash : Hash256)
    (parentId : ShareId) :
    Option Hash256 :=
  (registry.contexts[
    ({ zanoHeight, miningHeaderHash, parentId } : TrustedWorkKey)]?).bind
      TrustedWorkEntry.zanoParentHash

/-- Erase the entries that are stale, with their number. -/
def eraseStale
    (stale : TrustedWorkKey → TrustedWorkEntry → Bool)
    (registry : P2pTrustedWorkRegistry) :
    Nat × P2pTrustedWorkRegistry :=
  (registry.contexts.toList.countP fun entry => stale entry.1 entry.2,
    { contexts := registry.contexts.filter fun key entry => !stale key entry })

def eraseZanoHeight
    (zanoHeight : UInt64)
    (registry : P2pTrustedWorkRegistry) :
    Nat × P2pTrustedWorkRegistry :=
  registry.eraseStale fun key _ => key.zanoHeight = zanoHeight

def eraseZanoHeightsAbove
    (maximumZanoHeight : UInt64)
    (registry : P2pTrustedWorkRegistry) :
    Nat × P2pTrustedWorkRegistry :=
  registry.eraseStale fun key _ => maximumZanoHeight < key.zanoHeight

def eraseZanoParentMismatch
    (zanoHeight : UInt64)
    (canonicalParentHash : Hash256)
    (registry : P2pTrustedWorkRegistry) :
    Nat × P2pTrustedWorkRegistry :=
  registry.eraseStale fun key entry =>
    key.zanoHeight = zanoHeight ∧
      entry.zanoParentHash.any (· ≠ canonicalParentHash)

/-- Add a height unless it is the last one already. -/
def pushHeight (heights : List UInt64) (height : UInt64) : List UInt64 :=
  if heights.getLast? = some height then heights else heights ++ [height]

/-- The heights of the entries with a recorded Zano parent. -/
def provenanceZanoHeights (registry : P2pTrustedWorkRegistry) : List UInt64 :=
  (registry.contexts.toList.filter fun entry =>
    entry.2.zanoParentHash.isSome).foldl
      (fun heights entry => pushHeight heights entry.1.zanoHeight) []

end P2pTrustedWorkRegistry

inductive P2pShareReceiveStatus where
  | connected
  | orphan
  | duplicate
  | rejected
  | unknownWorkContext
  | capabilityMissing
  deriving Repr, DecidableEq

structure P2pShareReceiveResult where
  status : P2pShareReceiveStatus := .rejected
  chainResult : AddShareResult
  missingParentId : Option ShareId := none
  deriving Repr, DecidableEq

/-- Admit a share from a peer under a trusted work context. -/
def receiveShare
    (backend : Backend)
    (trustedWork : P2pTrustedWorkRegistry)
    (peerCapabilities requiredCapability : UInt64)
    (share : Share)
    (now : UInt64)
    (mode : ProgPowZContextMode) :
    ChainM P2pShareReceiveResult := do
  let id ← orThrow (shareId backend share)
  let chain ← get
  let known : AddShareResult := { id }
  if requiredCapability = 0 ∨
      peerCapabilities &&& requiredCapability ≠ requiredCapability then
    return { status := .capabilityMissing, chainResult := known }
  else
    match chain.find id with
    | some connected =>
        if chain.enforcesSidechainDifficulty ∧
            !connected.validatedAncestry then
          return { status := .unknownWorkContext, chainResult := known }
        else
          return {
            status := .duplicate
            chainResult := { known with disposition := .duplicate } }
    | none =>
        if chain.isOrphan id then
          return {
            status := .duplicate
            chainResult := { known with disposition := .duplicate } }
        else
          match trustedWork.find share.zanoHeight share.miningHeaderHash
              share.parentId with
          | none =>
              return { status := .unknownWorkContext, chainResult := known }
          | some trusted => do
              let chainResult ← ShareChain.submitShare backend share trusted
                now mode
              match chainResult.disposition with
              | .connected => return { status := .connected, chainResult }
              | .orphan =>
                  return {
                    status := .orphan, chainResult
                    missingParentId := some share.parentId }
              | .duplicate => return { status := .duplicate, chainResult }
              | .rejected => return { status := .rejected, chainResult }

end ZanoP2pool
