import ZanoP2pool.P2pProtocol

namespace ZanoP2pool

open Foundation

/-!
# Payloads of the P2P messages

One maker and one parser for each message that carries a payload of its own:
share announcements, share requests and responses, tip announcements, and the
requests and responses of the mining-work retrieval.
-/

section Shares

def makeP2pShareAnnounceEnvelope
    (backend : Backend)
    (share : Share) :
    Except Exception P2pEnvelope := do
  let payload ← serializeShare backend share
  return { type := .shareAnnounce, payload }

def parseP2pShareAnnounceEnvelope
    (backend : Backend)
    (envelope : P2pEnvelope) :
    Except Exception Share := do
  requireEnvelopeType envelope .shareAnnounce
    "P2P envelope is not a share announcement"
  if envelope.payload.length ≠ kShareV1SerializedSize ∧
      envelope.payload.length ≠ kShareV2SerializedSize then
    throw (.runtimeError "invalid P2P share announcement payload size")
  else
    deserializeShare backend envelope.payload

def kP2pShareRequestPayloadSize : Nat := 32

def kP2pShareResponseHeaderSize : Nat := 33

def makeP2pShareRequestEnvelope
    (requestedId : ShareId) :
    Except Exception P2pEnvelope :=
  if isZeroShareId requestedId then
    throw (.runtimeError "cannot request zero P2P share id")
  else
    return { type := .shareRequest, payload := hashBytes requestedId }

def parseP2pShareRequestEnvelope
    (envelope : P2pEnvelope) :
    Except Exception ShareId := do
  requireEnvelopeType envelope .shareRequest
    "P2P envelope is not a share request"
  if envelope.payload.length ≠ kP2pShareRequestPayloadSize then
    throw (.runtimeError "invalid P2P share request payload size")
  else
    let requested ← (takeBitVec256 readPastEnd).run envelope.payload
    if isZeroShareId requested.1 then
      throw (.runtimeError "cannot request zero P2P share id")
    else
      return requested.1

inductive P2pShareResponseCode where
  | found
  | notFound
  deriving Repr, DecidableEq

/-- The byte that tags a response code on the wire. -/
def P2pShareResponseCode.tag : P2pShareResponseCode → UInt8
  | found => 1
  | notFound => 2

structure P2pShareResponse where
  code : P2pShareResponseCode := .notFound
  requestedId : ShareId := 0
  share : Option Share := none
  deriving Repr, DecidableEq

def makeP2pShareResponseEnvelope
    (backend : Backend)
    (requestedId : ShareId)
    (share : Option Share) :
    Except Exception P2pEnvelope :=
  if isZeroShareId requestedId then
    throw (.runtimeError "cannot respond for zero P2P share id")
  else
    match share with
    | none =>
        return {
          type := .shareResponse
          payload :=
            P2pShareResponseCode.notFound.tag :: hashBytes requestedId }
    | some share => do
        let id ← shareId backend share
        if id ≠ requestedId then
          throw (.runtimeError
            "P2P share response does not match requested id")
        else
          let serialized ← serializeShare backend share
          return {
            type := .shareResponse
            payload :=
              P2pShareResponseCode.found.tag ::
                (hashBytes requestedId ++ serialized) }

/-- Read a share response whose payload holds at least its header. -/
def readP2pShareResponse
    (backend : Backend) :
    Cursor Exception P2pShareResponse := do
  let code ← takeByte readPastEnd
  let requestedId ← takeBitVec256 readPastEnd
  if isZeroShareId requestedId then
    throw (.runtimeError "P2P share response has zero requested id")
  else
    let serialized ← get
    if code = P2pShareResponseCode.notFound.tag then
      if serialized.length ≠ 0 then
        throw (.runtimeError "invalid not-found P2P share response size")
      else
        return { code := .notFound, requestedId }
    else if code ≠ P2pShareResponseCode.found.tag then
      throw (.runtimeError "unsupported P2P share response status")
    else if serialized.length ≠ kShareV1SerializedSize ∧
        serialized.length ≠ kShareV2SerializedSize then
      throw (.runtimeError "invalid found P2P share response size")
    else
      let share ← StateT.lift (deserializeShare backend serialized)
      let id ← StateT.lift (shareId backend share)
      if id ≠ requestedId then
        throw (.runtimeError "P2P share response id mismatch")
      else
        return { code := .found, requestedId, share := some share }

def parseP2pShareResponseEnvelope
    (backend : Backend)
    (envelope : P2pEnvelope) :
    Except Exception P2pShareResponse := do
  requireEnvelopeType envelope .shareResponse
    "P2P envelope is not a share response"
  if envelope.payload.length < kP2pShareResponseHeaderSize then
    throw (.runtimeError "truncated P2P share response payload")
  else
    let read ← (readP2pShareResponse backend).run envelope.payload
    return read.1

end Shares

section Tips

def kP2pTipHintPayloadSize : Nat := 40

structure P2pTipHint where
  shareId : ShareId := 0
  shareHeight : UInt64 := 0
  deriving Repr, DecidableEq

def requireValidTipHint
    (hint : P2pTipHint) :
    Except Exception Unit :=
  if isZeroShareId hint.shareId ∧ hint.shareHeight ≠ 0 then
    throw (.runtimeError "zero P2P tip id requires zero share height")
  else
    return ()

def makeP2pTipAnnounceEnvelope
    (hint : P2pTipHint) :
    Except Exception P2pEnvelope := do
  requireValidTipHint hint
  return {
    type := .tipAnnounce
    payload := hashBytes hint.shareId ++ appendU64Be hint.shareHeight }

def readP2pTipHint : Cursor Exception P2pTipHint := do
  let shareId ← takeBitVec256 readPastEnd
  let shareHeight ← takeUInt64 (.runtimeError "truncated P2P tip height")
  return { shareId, shareHeight }

def parseP2pTipAnnounceEnvelope
    (envelope : P2pEnvelope) :
    Except Exception P2pTipHint := do
  requireEnvelopeType envelope .tipAnnounce
    "P2P envelope is not a tip announcement"
  if envelope.payload.length ≠ kP2pTipHintPayloadSize then
    throw (.runtimeError "invalid P2P tip announcement payload size")
  else
    let read ← readP2pTipHint.run envelope.payload
    requireValidTipHint read.1
    return read.1

end Tips

section MiningWork

/-- A height and a mining header name one piece of mining work. -/
structure MiningWorkKey where
  zanoHeight : UInt64
  miningHeaderHash : Hash256
  deriving Repr, DecidableEq

def kMiningWorkChunkSize : Nat := 16 * 1024

def kP2pMiningContextFixedPayloadSize : Nat := 121

structure MiningWorkRequest where
  key : MiningWorkKey
  offset : UInt32 := 0
  deriving Repr, DecidableEq

/-- Part of a piece of work; a total size of zero says that it is not known. -/
structure MiningWorkResponse where
  request : MiningWorkRequest
  totalSize : UInt32 := 0
  chunk : List UInt8 := []
  deriving Repr, DecidableEq

/-- Throw unless a condition holds. -/
def require (condition : Prop) [Decidable condition] (message : String) :
    Except Exception Unit :=
  if condition then return () else throw (.runtimeError message)

def checkEnvelope
    (envelope : P2pEnvelope)
    (type : P2pMessageType) :
    Except Exception Unit :=
  require
    (envelope.version = kP2pProtocolVersion ∧ envelope.type = type ∧
      envelope.flags = 0 ∧ envelope.payload.length ≤ kP2pMaxPayloadSize)
    "invalid work-retrieval envelope"

def checkRequest
    (request : MiningWorkRequest) :
    Except Exception Unit :=
  require
    (request.key.miningHeaderHash ≠ 0 ∧
      request.offset.toNat < kP2pMaxPayloadSize ∧
      request.offset.toNat % kMiningWorkChunkSize = 0)
    "invalid work request key/offset"

def checkResponse
    (response : MiningWorkResponse) :
    Except Exception Unit := do
  checkRequest response.request
  if response.totalSize = 0 then
    require (response.chunk = []) "not-found work response contains data"
  else
    require
      (response.totalSize.toNat ≥ kP2pMiningContextFixedPayloadSize ∧
        response.totalSize.toNat ≤ kP2pMaxPayloadSize ∧
        response.request.offset < response.totalSize)
      "invalid work response total"
    require
      (response.chunk.length = min kMiningWorkChunkSize
        (response.totalSize - response.request.offset).toNat)
      "invalid work response chunk size"

/-- The bytes that a request and its response share. -/
def miningWorkRequestBytes (request : MiningWorkRequest) : List UInt8 :=
  appendU64Be request.key.zanoHeight ++
    hashBytes request.key.miningHeaderHash ++ appendU32Be request.offset

def makeMiningWorkRequest
    (request : MiningWorkRequest) :
    Except Exception P2pEnvelope := do
  checkRequest request
  return {
    type := .miningWorkRequest
    payload := miningWorkRequestBytes request }

/-- Read and check the request at the front of a payload. -/
def decodeRequest : Cursor Exception MiningWorkRequest := do
  let zanoHeight ← takeUInt64 readPastEnd
  let miningHeaderHash ← takeBitVec256 readPastEnd
  let offset ← takeUInt32 readPastEnd
  let request : MiningWorkRequest :=
    { key := { zanoHeight, miningHeaderHash }, offset }
  StateT.lift (checkRequest request)
  return request

def parseMiningWorkRequest
    (envelope : P2pEnvelope) :
    Except Exception MiningWorkRequest := do
  checkEnvelope envelope .miningWorkRequest
  require (envelope.payload.length = 44) "invalid work request length"
  let read ← decodeRequest.run envelope.payload
  return read.1

def makeMiningWorkResponse
    (response : MiningWorkResponse) :
    Except Exception P2pEnvelope := do
  checkResponse response
  let envelope ← makeMiningWorkRequest response.request
  return { envelope with
    type := .miningWorkResponse
    payload :=
      envelope.payload ++ appendU32Be response.totalSize ++ response.chunk }

/-- Read the request, the total size and the chunk of a response. -/
def readMiningWorkResponse : Cursor Exception MiningWorkResponse := do
  let request ← decodeRequest
  let totalSize ← takeUInt32 readPastEnd
  let chunk ← get
  return { request, totalSize, chunk }

def parseMiningWorkResponse
    (envelope : P2pEnvelope) :
    Except Exception MiningWorkResponse := do
  checkEnvelope envelope .miningWorkResponse
  require
    (envelope.payload.length ≥ 48 ∧
      envelope.payload.length ≤ 48 + kMiningWorkChunkSize)
    "invalid work response length"
  let read ← readMiningWorkResponse.run envelope.payload
  checkResponse read.1
  return read.1

end MiningWork

end ZanoP2pool
