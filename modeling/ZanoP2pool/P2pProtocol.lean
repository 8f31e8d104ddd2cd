import ZanoP2pool.Foundation.Words
import ZanoP2pool.ShareChain

namespace ZanoP2pool

open Foundation

/-!
# P2P envelopes and handshakes

A message between two nodes is an envelope: a header of twelve bytes and at most
64 KiB of payload.  The functions below write and read one envelope, receive
envelopes from a byte stream, and write and read the handshake that opens a
connection.
-/

/-- The bytes `ZP2P` that open every envelope. -/
def kP2pMagic : List UInt8 := [0x5a, 0x50, 0x32, 0x50]

def kP2pProtocolVersion : UInt8 := 2

def kP2pEnvelopeHeaderSize : Nat := 12

def kP2pMaxPayloadSize : Nat := 64 * 1024

def kP2pHandshakePayloadSize : Nat := 115

inductive P2pMessageType where
  | handshake
  | shareAnnounce
  | shareRequest
  | shareResponse
  | tipAnnounce
  | miningContextAnnounce
  | miningWorkRequest
  | miningWorkResponse
  deriving Repr, DecidableEq

namespace P2pMessageType

/-- The byte that tags a message type on the wire. -/
def tag : P2pMessageType → UInt8
  | handshake => 1
  | shareAnnounce => 2
  | shareRequest => 3
  | shareResponse => 4
  | tipAnnounce => 5
  | miningContextAnnounce => 6
  | miningWorkRequest => 7
  | miningWorkResponse => 8

/-- The supported message type of a byte, if there is one. -/
def ofTag? (value : UInt8) : Option P2pMessageType :=
  if value = 1 then some handshake
  else if value = 2 then some shareAnnounce
  else if value = 3 then some shareRequest
  else if value = 4 then some shareResponse
  else if value = 5 then some tipAnnounce
  else if value = 6 then some miningContextAnnounce
  else if value = 7 then some miningWorkRequest
  else if value = 8 then some miningWorkResponse
  else none

theorem ofTag?_eq_some
    {value : UInt8}
    {type : P2pMessageType} :
    ofTag? value = some type ↔ value = type.tag := by
  constructor
  · intro found
    unfold ofTag? at found
    split_ifs at found <;> cases found <;> assumption
  · rintro rfl
    cases type <;> decide

end P2pMessageType

/-- Whether a byte tags a supported message type. -/
def p2pMessageTypeSupported (value : UInt8) : Bool :=
  (P2pMessageType.ofTag? value).isSome

structure P2pEnvelope where
  version : UInt8 := kP2pProtocolVersion
  type : P2pMessageType := .handshake
  flags : UInt16 := 0
  payload : List UInt8 := []
  deriving Repr, DecidableEq

/-- Big-endian bytes of a 16-bit field. -/
def appendU16Be (value : UInt16) : List UInt8 :=
  bigEndian 2 value.toNat

/-- Big-endian bytes of a 32-bit field. -/
def appendU32Be (value : UInt32) : List UInt8 :=
  bigEndian 4 value.toNat

/-- The bytes of an envelope with the given announced payload size. -/
def envelopeHeaderBytes (envelope : P2pEnvelope) (payloadSize : UInt32) :
    List UInt8 :=
  kP2pMagic ++ [envelope.version, envelope.type.tag] ++
    appendU16Be envelope.flags ++ appendU32Be payloadSize

/-- Write an envelope, refusing what no node would accept. -/
def serializeP2pEnvelope
    (envelope : P2pEnvelope) :
    Except Exception (List UInt8) :=
  if envelope.version ≠ kP2pProtocolVersion then
    throw (.runtimeError "unsupported P2P protocol version")
  else if !p2pMessageTypeSupported envelope.type.tag then
    throw (.runtimeError "unsupported P2P message type")
  else if envelope.flags ≠ 0 then
    throw (.runtimeError "unsupported P2P envelope flags")
  else if envelope.payload.length > kP2pMaxPayloadSize then
    throw (.runtimeError "P2P payload exceeds maximum size")
  else
    return envelopeHeaderBytes envelope
      (UInt32.ofNat envelope.payload.length) ++ envelope.payload

/-- A part of a payload announces its exact length in 32 bits. -/
theorem toNat_payloadSize
    {bytes : List UInt8}
    (bounded : bytes.length ≤ kP2pMaxPayloadSize) :
    (UInt32.ofNat bytes.length).toNat = bytes.length := by
  apply UInt32.toNat_ofNat_of_lt'
  have limit : kP2pMaxPayloadSize < UInt32.size := by decide
  omega

/-- Every read below is behind a size check, so this is never thrown. -/
def readPastEnd : Exception := .outOfRange "read past the checked size"

/-- Read an envelope from at least a header; all bytes belong to it. -/
def readP2pEnvelope : Cursor Exception P2pEnvelope := do
  let magic ← takeBytes 4 readPastEnd
  if magic ≠ kP2pMagic then
    throw (.runtimeError "invalid P2P envelope magic")
  else
    let version ← takeByte readPastEnd
    if version ≠ kP2pProtocolVersion then
      throw (.runtimeError "unsupported P2P protocol version")
    else
      let typeValue ← takeByte readPastEnd
      match P2pMessageType.ofTag? typeValue with
      | none => throw (.runtimeError "unsupported P2P message type")
      | some type =>
          let flags ← takeUInt16 (.runtimeError "truncated P2P uint16")
          if flags ≠ 0 then
            throw (.runtimeError "unsupported P2P envelope flags")
          else
            let payloadSize ← takeUInt32
              (.runtimeError "truncated P2P uint32")
            if payloadSize.toNat > kP2pMaxPayloadSize then
              throw (.runtimeError "P2P payload exceeds maximum size")
            else
              let payload ← get
              if payload.length < payloadSize.toNat then
                throw (.runtimeError "truncated P2P envelope payload")
              else if payloadSize.toNat < payload.length then
                throw (.runtimeError "trailing bytes after P2P envelope")
              else
                set ([] : List UInt8)
                return { version, type, flags, payload }

/-- Read the envelope that a byte string is. -/
def deserializeP2pEnvelope
    (bytes : List UInt8) :
    Except Exception P2pEnvelope :=
  if bytes.length < kP2pEnvelopeHeaderSize then
    throw (.runtimeError "truncated P2P envelope header")
  else do
    let read ← readP2pEnvelope.run bytes
    return read.1

section Transport

/-- The 16-bit number at an offset of a received header. -/
def headerU16Be (header : List UInt8) (offset : Nat) : UInt16 :=
  UInt16.ofNat (ofBigEndian ((header.drop offset).take 2))

/-- The 32-bit number at an offset of a received header. -/
def headerU32Be (header : List UInt8) (offset : Nat) : UInt32 :=
  UInt32.ofNat (ofBigEndian ((header.drop offset).take 4))

/-- Check a received header before its payload is read; returns its size. -/
def validateStreamHeader
    (header : List UInt8) :
    Except Exception UInt32 :=
  if header.take 4 ≠ kP2pMagic then
    throw (.runtimeError "invalid P2P envelope magic")
  else if header.getD 4 0 ≠ kP2pProtocolVersion then
    throw (.runtimeError "unsupported P2P protocol version")
  else if !p2pMessageTypeSupported (header.getD 5 0) then
    throw (.runtimeError "unsupported P2P message type")
  else if headerU16Be header 6 ≠ 0 then
    throw (.runtimeError "unsupported P2P envelope flags")
  else
    let payloadSize := headerU32Be header 8
    if payloadSize.toNat > kP2pMaxPayloadSize then
      throw (.runtimeError "P2P payload exceeds maximum size")
    else
      return payloadSize

/-- Receive exactly `size` bytes of the stream that ends when the peer closes. -/
def recvExact (size : Nat) : Cursor Exception (List UInt8) :=
  takeBytes size (.runtimeError "P2P socket closed during receive")

/-- Receive one envelope from a byte stream. -/
def receiveEnvelope : Cursor Exception P2pEnvelope := do
  let header ← recvExact kP2pEnvelopeHeaderSize
  let payloadSize ← StateT.lift (validateStreamHeader header)
  if payloadSize ≠ 0 then
    let payload ← recvExact payloadSize.toNat
    StateT.lift (deserializeP2pEnvelope (header ++ payload))
  else
    StateT.lift (deserializeP2pEnvelope header)

/-- Receive a number of envelopes one after the other. -/
def receiveEnvelopes : Nat → Cursor Exception (List P2pEnvelope)
  | 0 => return []
  | count + 1 => do
      let envelope ← receiveEnvelope
      let later ← receiveEnvelopes count
      return envelope :: later

end Transport

section Handshake

inductive P2pNetwork where
  | testnet
  | mainnet
  deriving Repr, DecidableEq

namespace P2pNetwork

/-- The byte that tags a network on the wire. -/
def tag : P2pNetwork → UInt8
  | testnet => 1
  | mainnet => 2

/-- The supported network of a byte, if there is one. -/
def ofTag? (value : UInt8) : Option P2pNetwork :=
  if value = 1 then some testnet
  else if value = 2 then some mainnet
  else none

theorem ofTag?_eq_some
    {value : UInt8}
    {network : P2pNetwork} :
    ofTag? value = some network ↔ value = network.tag := by
  constructor
  · intro found
    unfold ofTag? at found
    split_ifs at found <;> cases found <;> assumption
  · rintro rfl
    cases network <;> decide

end P2pNetwork

abbrev NodeId := Hash256

def kP2pCapabilityShareGossip : UInt64 := 1

def kP2pCapabilityShareSync : UInt64 := 2

def kP2pCapabilityMiningContext : UInt64 := 4

def kP2pCapabilityWorkRetrieval : UInt64 := 8

def kP2pCapabilitiesV1 : UInt64 :=
  kP2pCapabilityShareGossip ||| kP2pCapabilityShareSync |||
    kP2pCapabilityMiningContext

/-- What a node says about itself; a zero sidechain id stands for the canonical. -/
structure P2pHandshake where
  network : P2pNetwork := .testnet
  nodeId : NodeId := 0
  capabilities : UInt64 := kP2pCapabilitiesV1
  listenPort : UInt16 := 0
  bestShareId : ShareId := 0
  bestShareHeight : UInt64 := 0
  sidechainId : SidechainId := 0
  deriving Repr, DecidableEq

def kCanonicalOperatorFeeBasisPoints : UInt64 := 100

def kCanonicalOperatorFeePayout : PayoutPublicKeys where
  spendPublicKey :=
    0x0a7e53f700f46f2e5d283aaacbfc6e69c9532a5628c9fdf807f258e0cbba0ce1
  viewPublicKey :=
    0xdd5dd90b2cc8c197ea297e06561929c0422bfe9bff495c5d6272c2373f5f129e

/-- The consensus parameters of the public sidechain of a Zano network. -/
def canonicalSidechainParameters
    (network : SidechainParentNetwork) :
    SidechainParameters where
  parameterVersion := kSidechainParameterVersion
  parentNetwork := network
  minimumShareVersion := kShareVersion2
  maximumShareVersion := kShareVersion2
  maxFutureSeconds := kShareMaxFutureSeconds
  maxParentBackstepSeconds := kShareMaxParentBackstepSeconds
  targetShareSeconds := 10
  minimumShareDifficulty := 100000000
  difficultyWindowShares := 2160
  pplnsWindowShares := kCanonicalPplnsWindowShares
  pplnsMaxNetworkDifficultyMultiplier := 2
  operatorFeeBasisPoints := kCanonicalOperatorFeeBasisPoints
  operatorFeePayout := kCanonicalOperatorFeePayout

/-- The sidechain of the public pool on a network. -/
def canonicalP2pSidechainId
    (backend : Backend)
    (network : P2pNetwork) :
    Except Exception SidechainId :=
  match network with
  | .testnet => sidechainId backend (canonicalSidechainParameters .testnet)
  | .mainnet => sidechainId backend (canonicalSidechainParameters .mainnet)

def isZeroNodeId (nodeId : NodeId) : Bool :=
  nodeId == 0

def isZeroSidechainId (id : SidechainId) : Bool :=
  id == 0

/-- The sidechain a handshake stands for. -/
def resolvedP2pSidechainId
    (backend : Backend)
    (handshake : P2pHandshake) :
    Except Exception SidechainId :=
  if !isZeroSidechainId handshake.sidechainId then
    return handshake.sidechainId
  else
    canonicalP2pSidechainId backend handshake.network

/-- The checks that a handshake passes before and after the wire. -/
def requireValidHandshake
    (handshake : P2pHandshake) :
    Except Exception Unit :=
  if isZeroNodeId handshake.nodeId then
    throw (.runtimeError "P2P node id must be non-zero")
  else if isZeroShareId handshake.bestShareId ∧
      handshake.bestShareHeight ≠ 0 then
    throw (.runtimeError "zero best-share id requires zero best-share height")
  else
    return ()

/-- The bytes of a handshake under its resolved sidechain id. -/
def handshakeBytes (handshake : P2pHandshake) : List UInt8 :=
  [handshake.network.tag] ++ hashBytes handshake.sidechainId ++
    hashBytes handshake.nodeId ++ appendU64Be handshake.capabilities ++
    appendU16Be handshake.listenPort ++ hashBytes handshake.bestShareId ++
    appendU64Be handshake.bestShareHeight

def serializeP2pHandshakePayload
    (backend : Backend)
    (handshake : P2pHandshake) :
    Except Exception (List UInt8) := do
  requireValidHandshake handshake
  let sidechainId ← resolvedP2pSidechainId backend handshake
  let out := handshakeBytes { handshake with sidechainId }
  if out.length ≠ kP2pHandshakePayloadSize then
    throw (.runtimeError "internal P2P handshake size mismatch")
  else
    return out

/-- Read the fields of a handshake payload of the right size. -/
def readP2pHandshake : Cursor Exception P2pHandshake := do
  let networkValue ← takeByte readPastEnd
  match P2pNetwork.ofTag? networkValue with
  | none => throw (.runtimeError "unsupported P2P network")
  | some network =>
      let sidechainId ← takeBitVec256 readPastEnd
      if isZeroSidechainId sidechainId then
        throw (.runtimeError "P2P sidechain id must be non-zero")
      else
        let nodeId ← takeBitVec256 readPastEnd
        let capabilities ← takeUInt64 (.runtimeError "truncated P2P uint64")
        let listenPort ← takeUInt16 (.runtimeError "truncated P2P uint16")
        let bestShareId ← takeBitVec256 readPastEnd
        let bestShareHeight ← takeUInt64 (.runtimeError "truncated P2P uint64")
        return {
          network, nodeId, capabilities, listenPort, bestShareId,
          bestShareHeight, sidechainId }

def deserializeP2pHandshakePayload
    (bytes : List UInt8) :
    Except Exception P2pHandshake :=
  if bytes.length ≠ kP2pHandshakePayloadSize then
    throw (.runtimeError "invalid P2P handshake payload size")
  else do
    let read ← readP2pHandshake.run bytes
    requireValidHandshake read.1
    return read.1

def makeP2pHandshakeEnvelope
    (backend : Backend)
    (handshake : P2pHandshake) :
    Except Exception P2pEnvelope := do
  let payload ← serializeP2pHandshakePayload backend handshake
  return { type := .handshake, payload }

/-- The header fields an envelope has before its payload is parsed. -/
def requireEnvelopeType
    (envelope : P2pEnvelope)
    (expectedType : P2pMessageType)
    (message : String) :
    Except Exception Unit :=
  if envelope.version ≠ kP2pProtocolVersion then
    throw (.runtimeError "unsupported P2P protocol version")
  else if envelope.type ≠ expectedType then
    throw (.runtimeError message)
  else if envelope.flags ≠ 0 then
    throw (.runtimeError "unsupported P2P envelope flags")
  else
    return ()

def parseP2pHandshakeEnvelope
    (envelope : P2pEnvelope) :
    Except Exception P2pHandshake := do
  requireEnvelopeType envelope .handshake "P2P envelope is not a handshake"
  deserializeP2pHandshakePayload envelope.payload

end Handshake

end ZanoP2pool
