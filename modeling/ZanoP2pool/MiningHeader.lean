import ZanoP2pool.Foundation.PairTree
import ZanoP2pool.Foundation.SelfDelimiting
import ZanoP2pool.Share

namespace ZanoP2pool

open Foundation

/-!
# Mining headers

The mining header hash of a block is derived from its blob: the block header with
a zeroed nonce, the prefix of the miner transaction and the hashes of the regular
transactions.  Read positions of the source are lengths of remaining bytes.
-/

structure ParsedBlockHeader where
  serializedSize : Nat
  serialized : List UInt8
  deriving Repr, DecidableEq

structure ParsedMinerTxPrefix where
  version : Nat
  hardforkId : UInt8
  vinCount : Nat
  extraCount : Nat
  voutCount : Nat
  serializedSize : Nat
  serialized : List UInt8
  hash : Hash256
  deriving Repr, DecidableEq

structure ParsedTxHashTrailer where
  serializedOffset : Nat
  serializedSize : Nat
  hashes : List Hash256
  deriving Repr, DecidableEq

structure MiningHeaderWork where
  blockHeader : ParsedBlockHeader
  minerTxPrefix : ParsedMinerTxPrefix
  txHashes : ParsedTxHashTrailer
  txTreeRoot : Hash256
  hashingBlob : List UInt8
  headerHash : Hash256
  deriving Repr, DecidableEq

namespace MiningHeader

def truncated : Exception := .runtimeError "truncated Zano serialization"

def readU8 : Cursor Exception UInt8 := takeByte truncated

def readVarint : Cursor Exception Nat :=
  takeVarint truncated (.runtimeError "varint overflows uint64")
    (.runtimeError "varint is too long")

def skip (count : Nat) : Cursor Exception Unit := do
  let _ ← takeBytes count truncated
  return ()

def skipBlob : Cursor Exception Unit := do
  let size ← readVarint
  skip size

/-- Repeat a reader a given number of times. -/
def repeatRead (reader : Cursor Exception Unit) : Nat → Cursor Exception Unit
  | 0 => return ()
  | count + 1 => do
      reader
      repeatRead reader count

end MiningHeader

open MiningHeader

/-- Skip one extra field of a coinbase transaction. -/
def skipCurrentCoinbaseExtra : Cursor Exception Unit := do
  let tag ← readU8
  if tag = 11 ∨ tag = 19 ∨ tag = 21 then
    skipBlob
  else if tag = 14 ∨ tag = 15 ∨ tag = 16 ∨ tag = 78 then do
    let _ ← readVarint
    return ()
  else if tag = 18 then do
    let _ ← readVarint
    skip 32
    let _ ← readVarint
    return ()
  else if tag = 22 then
    skip 32
  else
    throw (.runtimeError
      ("unsupported current coinbase extra tag: " ++ toString tag))

/-- Skip one output of a coinbase transaction. -/
def skipCurrentCoinbaseOutput : Cursor Exception Unit := do
  let tag ← readU8
  if tag ≠ 63 then
    throw (.runtimeError
      ("unsupported current coinbase output tag: " ++ toString tag))
  else do
    let version ← readU8
    if version ≠ 0 then
      throw (.runtimeError "unsupported tx_out_zarcanum version")
    else do
      skip (32 * 4)
      skip (8 + 8)
      skip 1

/-- Skip one input of a miner transaction. -/
def skipMinerInput : Cursor Exception Unit := do
  let tag ← readU8
  if tag ≠ 0 then
    throw (.runtimeError
      ("unsupported current miner input tag: " ++ toString tag))
  else do
    let _ ← readVarint
    return ()

/-- The fields of a block header, in serialization order. -/
def blockHeaderFields : Cursor Exception Unit := do
  let _ ← readU8
  skip 8
  skip 32
  let _ ← readVarint
  let _ ← readVarint
  let _ ← readU8
  return ()

/-- Overwrite the eight nonce bytes of a serialized header by zeros. -/
def zeroNonce (header : List UInt8) : List UInt8 :=
  header.take 1 ++ List.replicate 8 0 ++ header.drop 9

def parsePowBlockHeader
    (blockBlob : List UInt8) :
    Except Exception ParsedBlockHeader := do
  let (_, rest) ← blockHeaderFields blockBlob
  let serializedSize := blockBlob.length - rest.length
  let serialized := blockBlob.take serializedSize
  if serialized.length < 9 then
    throw (.runtimeError "serialized block header is unexpectedly short")
  else
    return { serializedSize, serialized := zeroNonce serialized }

/-- The fields of the prefix of a miner transaction. -/
def minerTxPrefixFields :
    Cursor Exception (Nat × Nat × Nat × Nat × UInt8) := do
  let version ← readVarint
  if version ≠ 4 then
    throw (.runtimeError
      ("unsupported current miner transaction version: " ++
        toString version))
  else do
    let vinCount ← readVarint
    repeatRead skipMinerInput vinCount
    let extraCount ← readVarint
    repeatRead skipCurrentCoinbaseExtra extraCount
    let voutCount ← readVarint
    repeatRead skipCurrentCoinbaseOutput voutCount
    let hardforkId ← readU8
    return (version, vinCount, extraCount, voutCount, hardforkId)

def parseHf6MinerTxPrefix
    (backend : Backend)
    (minerTxBlob : List UInt8) :
    Except Exception ParsedMinerTxPrefix := do
  let ((version, vinCount, extraCount, voutCount, hardforkId), rest) ←
    minerTxPrefixFields minerTxBlob
  let serializedSize := minerTxBlob.length - rest.length
  let serialized := minerTxBlob.take serializedSize
  return {
    version, hardforkId, vinCount, extraCount, voutCount, serializedSize
    serialized, hash := backend.cnFastHash serialized }

/-- Read a count that must be encoded in its shortest form. -/
def readCount : Cursor Exception Nat := do
  let before ← get
  let count ← readVarint
  let after ← get
  if before.length - after.length ≠ (varint count).length then
    throw (.runtimeError "non-canonical HF6 suffix count")
  else
    return count

/-- Skip a vector of keys and return their number. -/
def skipKeys (maximum : Nat) : Cursor Exception Nat := do
  let count ← readCount
  if count > maximum then
    throw (.runtimeError "HF6 proof vector exceeds bound")
  else do
    skip (count * 32)
    return count

/-- Doublings of a capacity until it holds the outputs. -/
def capacityDoublings : Nat → Nat → Nat → Nat
  | 0, _, _ => 0
  | budget + 1, capacity, outputs =>
      if capacity < outputs then
        capacityDoublings budget (capacity * 2) outputs + 1
      else 0

/-- Read a value that must be the given one. -/
def expectRead
    {α : Type}
    [DecidableEq α]
    (reader : Cursor Exception α)
    (expected : α) :
    Cursor Exception Unit := do
  let value ← reader
  if value ≠ expected then
    throw (.runtimeError "unexpected current HF6 coinbase proof shape")
  else
    return ()

/-- Skip the proofs of the miner transaction. -/
def skipHf6Proofs : Cursor Exception Unit := do
  expectRead readCount 0
  expectRead readCount 0
  expectRead readCount 2
  expectRead readU8 47
  let left ← skipKeys 11
  let right ← skipKeys 11
  skip (6 * 32)
  let outputs ← skipKeys 32
  let y0s ← skipKeys 32
  let y1s ← skipKeys 32
  skip 32
  let rounds := 6 + capacityDoublings outputs 1 outputs
  if outputs < 2 ∨ y0s ≠ outputs ∨ y1s ≠ outputs ∨
      left ≠ rounds ∨ right ≠ rounds then
    throw (.runtimeError "inconsistent current HF6 range-proof counts")
  else do
    let balance ← readU8
    if balance ≠ 48 then
      throw (.runtimeError "missing current HF6 balance proof")
    else
      skip 96

/-- The hashes in a string of whole digests. -/
def splitHashes : Nat → List UInt8 → List Hash256
  | 0, _ => []
  | count + 1, bytes =>
      BitVec.ofNat 256 (ofBigEndian (bytes.take 32)) ::
        splitHashes count (bytes.drop 32)

def parseHf6TxHashTrailer
    (blockBlob : List UInt8)
    (minerSuffixOffset : Nat) :
    Except Exception ParsedTxHashTrailer :=
  if minerSuffixOffset ≥ blockBlob.length then
    throw (.runtimeError "miner suffix offset is outside block blob")
  else do
    let (_, trailer) ← skipHf6Proofs (blockBlob.drop minerSuffixOffset)
    let (count, remaining) ← readCount trailer
    if remaining.length % 32 ≠ 0 ∨ count ≠ remaining.length / 32 then
      throw (.runtimeError
        "invalid current HF6 transaction-hash trailer length")
    else
      return {
        serializedOffset := blockBlob.length - trailer.length
        serializedSize := trailer.length
        hashes := splitHashes count remaining }

/-- The 64 bytes hashed from two digests. -/
def pairBytes (left right : Hash256) : List UInt8 :=
  hashBytes left ++ hashBytes right

def hashPair (backend : Backend) (left right : Hash256) : Hash256 :=
  backend.cnFastHash (pairBytes left right)

/-- The greatest power of two below a count, as the source smears bits. -/
def treeWidth (count : Nat) : Nat :=
  let smeared := [1, 2, 4, 8, 16, 32].foldl
    (fun bits shift => bits ||| bits >>> shift) (BitVec.ofNat 64 (count - 1))
  (smeared &&& ~~~(smeared >>> 1)).toNat

/-- Hash neighbours until two digests are left. -/
def reduceToPair (backend : Backend) : Nat → List Hash256 → List Hash256
  | 0, layer => layer
  | budget + 1, layer =>
      if layer.length > 2 then
        reduceToPair backend budget
          (pairUp backend.cnFastHash pairBytes layer)
      else layer

/-- The digest of the last two digests. -/
def hashLastPair (backend : Backend) : List Hash256 → Hash256
  | left :: right :: _ => hashPair backend left right
  | _ => 0

def transactionTreeHash
    (backend : Backend)
    (minerTxHash : Hash256)
    (regularTxHashes : List Hash256) :
    Hash256 :=
  let hashes := minerTxHash :: regularTxHashes
  let count := hashes.length
  if count = 1 then
    minerTxHash
  else if count = 2 then
    hashLastPair backend hashes
  else
    let width := treeWidth count
    let direct := 2 * width - count
    let intermediate := hashes.take direct ++
      pairUp backend.cnFastHash pairBytes (hashes.drop direct)
    hashLastPair backend (reduceToPair backend width intermediate)

def makeHashingBlob
    (zeroNonceBlockHeader : List UInt8)
    (txTreeRoot : Hash256)
    (totalTransactionCount : Nat) :
    Except Exception (List UInt8) :=
  if totalTransactionCount = 0 ∨ totalTransactionCount > 2 ^ 64 - 1 then
    throw (.runtimeError "invalid total transaction count")
  else
    return zeroNonceBlockHeader ++ hashBytes txTreeRoot ++
      varint totalTransactionCount

def deriveMiningHeaderWork
    (backend : Backend)
    (blockBlob : List UInt8) :
    Except Exception MiningHeaderWork := do
  let blockHeader ← parsePowBlockHeader blockBlob
  let minerTxPrefix ← parseHf6MinerTxPrefix backend
    (blockBlob.drop blockHeader.serializedSize)
  let txHashes ← parseHf6TxHashTrailer blockBlob
    (blockHeader.serializedSize + minerTxPrefix.serializedSize)
  let txTreeRoot := transactionTreeHash backend minerTxPrefix.hash
    txHashes.hashes
  let hashingBlob ← makeHashingBlob blockHeader.serialized txTreeRoot
    (txHashes.hashes.length + 1)
  return {
    blockHeader, minerTxPrefix, txHashes, txTreeRoot, hashingBlob
    headerHash := backend.cnFastHash hashingBlob }

end ZanoP2pool
