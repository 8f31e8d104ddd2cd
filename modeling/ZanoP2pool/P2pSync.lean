import ZanoP2pool.P2pMessages
import ZanoP2pool.P2pShare

namespace ZanoP2pool

open Foundation

/-!
# Synchronization of shares

Requests for shares are answered from the connected shares only, a response is
handed to the share receiver, and a tip hint decides which share to ask for next.
-/

/-- Answer a request with the connected share or its absence. -/
def answerP2pShareRequest
    (backend : Backend)
    (peer : P2pHandshake)
    (request : P2pEnvelope)
    (chain : ShareChain) :
    Except Exception P2pEnvelope :=
  if peer.capabilities &&& kP2pCapabilityShareSync = 0 then
    throw (.runtimeError "P2P peer lacks share-sync capability")
  else do
    let requestedId ← parseP2pShareRequestEnvelope request
    makeP2pShareResponseEnvelope backend requestedId
      ((chain.find requestedId).map ConnectedShare.share)

inductive P2pShareSyncReceiveStatus where
  | shareProcessed
  | notFound
  | capabilityMissing
  deriving Repr, DecidableEq

structure P2pShareSyncReceiveResult where
  status : P2pShareSyncReceiveStatus := .notFound
  requestedId : ShareId := 0
  shareResult : Option P2pShareReceiveResult := none
  deriving Repr, DecidableEq

/-- Receive an announced share. -/
def receiveP2pShareAnnounce
    (backend : Backend)
    (trustedWork : P2pTrustedWorkRegistry)
    (peer : P2pHandshake)
    (envelope : P2pEnvelope)
    (now : UInt64)
    (mode : ProgPowZContextMode) :
    ChainM P2pShareReceiveResult := do
  let share ← orThrow (parseP2pShareAnnounceEnvelope backend envelope)
  receiveShare backend trustedWork peer.capabilities kP2pCapabilityShareGossip
    share now mode

/-- Receive the answer to a share request. -/
def receiveP2pShareResponse
    (backend : Backend)
    (trustedWork : P2pTrustedWorkRegistry)
    (peer : P2pHandshake)
    (responseEnvelope : P2pEnvelope)
    (now : UInt64)
    (mode : ProgPowZContextMode) :
    ChainM P2pShareSyncReceiveResult := do
  let response ← orThrow
    (parseP2pShareResponseEnvelope backend responseEnvelope)
  if peer.capabilities &&& kP2pCapabilityShareSync = 0 then
    return {
      status := .capabilityMissing, requestedId := response.requestedId }
  else
    match response.share with
    | none => return { requestedId := response.requestedId }
    | some share =>
        let shareResult ← receiveShare backend trustedWork peer.capabilities
          kP2pCapabilityShareSync share now mode
        return {
          status := .shareProcessed
          requestedId := response.requestedId
          shareResult := some shareResult }

def p2pTipHintFromChain (chain : ShareChain) : P2pTipHint :=
  match chain.bestTip with
  | none => { shareId := 0, shareHeight := 0 }
  | some tip => { shareId := tip.id, shareHeight := tip.share.shareHeight }

inductive P2pTipSyncStatus where
  | noRemoteTip
  | knownConnectedTip
  | requestAdvertisedTip
  | requestMissingParent
  | heightMismatch
  | capabilityMissing
  deriving Repr, DecidableEq

structure P2pTipSyncDecision where
  status : P2pTipSyncStatus
  requestedId : Option ShareId := none
  deriving Repr, DecidableEq

/-- Which share to ask a peer for, given the tip it advertises. -/
def planP2pTipSync
    (peer : P2pHandshake)
    (hint : P2pTipHint)
    (chain : ShareChain) :
    P2pTipSyncDecision :=
  if peer.capabilities &&& kP2pCapabilityShareSync = 0 then
    { status := .capabilityMissing }
  else if isZeroShareId hint.shareId then
    if hint.shareHeight ≠ 0 then
      { status := .heightMismatch }
    else
      { status := .noRemoteTip }
  else
    match chain.find hint.shareId with
    | some connected =>
        if connected.share.shareHeight ≠ hint.shareHeight then
          { status := .heightMismatch }
        else
          { status := .knownConnectedTip }
    | none =>
        match chain.findOrphanShare hint.shareId with
        | some orphan =>
            if orphan.shareHeight ≠ hint.shareHeight ∨
                isZeroShareId orphan.parentId then
              { status := .heightMismatch }
            else
              { status := .requestMissingParent
                requestedId := some orphan.parentId }
        | none =>
            { status := .requestAdvertisedTip
              requestedId := some hint.shareId }

end ZanoP2pool
