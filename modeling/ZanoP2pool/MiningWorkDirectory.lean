import ZanoP2pool.BlockSubmitter
import ZanoP2pool.P2pWorkRetrieval

namespace ZanoP2pool

open Foundation

/-!
# The mining-work archive on disk

Each record is a file named by the hash of its payload.  A read checks the
version, the sidechain, the length, the identity and the checksum of the record
before it returns the payload.
-/

/-- A file of the archive; without content it is not a regular file. -/
structure WorkFile where
  name : List UInt8
  content : Option (List UInt8)
  deriving Repr, DecidableEq

/-- The archive of one sidechain, its files in the order of the directory. -/
structure MiningWorkDirectory where
  sidechainId : SidechainId
  files : List WorkFile

/-- The stem and the extension of a file name; a leading dot starts neither. -/
def splitExtension (name : List UInt8) : List UInt8 × List UInt8 :=
  let afterDot := (name.reverse.takeWhile (· ≠ 0x2e)).length
  let dot := name.length - afterDot - 1
  if dot = 0 then (name, []) else (name.take dot, name.drop dot)

namespace MiningWorkDirectory

def magic : List UInt8 :=
  [0x5a, 0x50, 0x32, 0x57, 0x4f, 0x52, 0x4b, 0x31]

def headerSize : Nat := 8 + 32 + 4

def digestSize : Nat := 32

/-- The start of the names of files that are being written. -/
def temporaryStart : List UInt8 :=
  [0x2e, 0x74, 0x6d, 0x70, 0x2d]

def workExtension : List UInt8 :=
  [0x2e, 0x77, 0x6f, 0x72, 0x6b]

/-- Whether a byte is a digit of a file name. -/
def isNameDigit (byte : UInt8) : Bool :=
  (0x30 ≤ byte ∧ byte ≤ 0x39) ∨ (0x61 ≤ byte ∧ byte ≤ 0x66)

/-- The identity that a file name spells; the refusal has the caller's text. -/
def idFromFilename
    (refusal : String)
    (name : List UInt8) :
    Except Exception Hash256 :=
  let stem := (splitExtension name).1
  if stem.length ≠ 64 ∨ !stem.all isNameDigit then
    throw (.runtimeError refusal)
  else do
    let bytes ← hexToBytes stem
    return BitVec.ofNat 256 (ofBigEndian bytes)

/-- The bytes of the file named by an identity. -/
def contentOf
    (directory : MiningWorkDirectory)
    (id : Hash256) :
    Option (List UInt8) := do
  let file ← directory.files.find? fun file =>
    file.name = bytesToHex (hashBytes id) ++ workExtension
  file.content

/-- The payload of a record, after all its checks. -/
def read
    (backend : Backend)
    (directory : MiningWorkDirectory) :
    MiningWorkArchive := fun id =>
  match directory.contentOf id with
  | none =>
      throw (.runtimeError "mining-work archive record is not a regular file")
  | some bytes =>
      let length := ofBigEndian ((bytes.drop 40).take 4)
      let payload := (bytes.drop headerSize).take length
      let checksum := backend.cnFastHash (bytes.take (headerSize + length))
      if bytes.length < headerSize + digestSize ∨
          bytes.length > headerSize + kP2pMaxPayloadSize + digestSize then
        throw (.runtimeError "invalid mining-work archive record size")
      else if bytes.take 8 ≠ magic ∨
          (bytes.drop 8).take 32 ≠ hashBytes directory.sidechainId then
        throw (.runtimeError "mining-work archive version/sidechain mismatch")
      else if length < kP2pMiningContextFixedPayloadSize ∨
          length > kP2pMaxPayloadSize then
        throw (.runtimeError "invalid mining-work archive payload length")
      else if bytes.length ≠ headerSize + length + digestSize then
        throw (.runtimeError "mining-work archive length mismatch")
      else if backend.cnFastHash payload ≠ id ∨
          bytes.drop (headerSize + length) ≠ hashBytes checksum then
        throw (.runtimeError "mining-work archive checksum/ID mismatch")
      else
        return payload

/-- The identities of the remaining files, after those found so far. -/
def listIdsFrom
    (backend : Backend)
    (directory : MiningWorkDirectory)
    (maxRecords : Nat) :
    List WorkFile → List Hash256 → Except Exception (List Hash256)
  | [], ids => return ids
  | file :: rest, ids =>
      if temporaryStart.isPrefixOf file.name then
        listIdsFrom backend directory maxRecords rest ids
      else if (splitExtension file.name).2 ≠ workExtension then
        throw (.runtimeError "unexpected file in mining-work archive")
      else if ids.length ≥ maxRecords then
        throw (.runtimeError "mining-work archive scan limit exceeded")
      else do
        let id ← idFromFilename "invalid mining-work archive filename" file.name
        let _ ← directory.read backend id
        listIdsFrom backend directory maxRecords rest (ids ++ [id])

/-- The identities of all records in order; every record is read. -/
def listIds
    (backend : Backend)
    (directory : MiningWorkDirectory)
    (maxRecords : Nat) :
    Except Exception (List Hash256) := do
  let ids ← listIdsFrom backend directory maxRecords directory.files []
  return ids.insertionSort (· ≤ ·)

/-- The proposal that a record holds. -/
def readProposal
    (backend : Backend)
    (json : JsonBackend)
    (directory : MiningWorkDirectory)
    (id : Hash256) :
    Except Exception P2pMiningContextProposal := do
  let payload ← directory.read backend id
  deserializeP2pMiningContextPayload json payload

/-- The anchors of the remaining files, after those found so far. -/
def loadAnchorsFrom
    (backend : Backend)
    (json : JsonBackend)
    (directory : MiningWorkDirectory)
    (maxRecords : Nat) :
    List WorkFile → List P2pMiningAnchor →
      Except Exception (List P2pMiningAnchor)
  | [], anchors => return anchors
  | file :: rest, anchors =>
      if (splitExtension file.name).2 ≠ workExtension then
        loadAnchorsFrom backend json directory maxRecords rest anchors
      else if anchors.length ≥ maxRecords then
        throw (.runtimeError
          "local archive scan limit exceeded; no partial evidence accepted")
      else do
        let id ← idFromFilename "invalid local archive record name" file.name
        let proposal ← directory.readProposal backend json id
        let anchor ← checkedLocalAnchor backend json proposal
        loadAnchorsFrom backend json directory maxRecords rest
          (anchors ++ [anchor])

/-- What this node observed of canonical history, from its own archive. -/
def loadLocalMiningAnchors
    (backend : Backend)
    (json : JsonBackend)
    (directory : MiningWorkDirectory)
    (maxRecords : Nat) :
    Except Exception (List P2pMiningAnchor) :=
  loadAnchorsFrom backend json directory maxRecords directory.files []

end MiningWorkDirectory

end ZanoP2pool
