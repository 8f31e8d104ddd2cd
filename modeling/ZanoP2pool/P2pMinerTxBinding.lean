import ZanoP2pool.Foundation.Varint
import ZanoP2pool.Share

namespace ZanoP2pool

open Foundation

/-!
# Transaction keys of miner transactions

The key pair in the text of a proposal is bound to the public key in the prefix of
its miner transaction.  Zano's curve operations and the JSON reader are outside
this repository; they are fields of a backend.
-/

abbrev ZanoCurveKey := Hash256

/-- Zano's curve operations. -/
structure CurveBackend where
  available : Bool
  secretKeyMatchesPublic : ZanoCurveKey → ZanoCurveKey → Bool
  -- secret transaction key, spend key, view key, output index
  deriveOutputPublicKey :
    ZanoCurveKey → ZanoCurveKey → ZanoCurveKey → Nat → Option ZanoCurveKey
  -- amount, blinding mask, blinded asset id, commitment
  amountCommitmentMatches :
    UInt64 → ZanoCurveKey → ZanoCurveKey → ZanoCurveKey → Bool

/-- The string fields of a JSON object, as C strings. -/
abbrev JsonObject := String → Option (List UInt8)

/--
The JSON reader: the object in a text of the given length, if the text holds one.
The length is the source's conversion to a 32-bit integer.
-/
abbrev JsonBackend := List UInt8 → BitVec 32 → Option JsonObject

/-- The value of one hexadecimal digit. -/
def hexNibble (digit : UInt8) : Except Exception UInt8 :=
  if 0x30 ≤ digit ∧ digit ≤ 0x39 then
    return digit - 0x30
  else if 0x61 ≤ digit ∧ digit ≤ 0x66 then
    return digit - 0x61 + 10
  else if 0x41 ≤ digit ∧ digit ≤ 0x46 then
    return digit - 0x41 + 10
  else
    throw (.invalidArgument "invalid hexadecimal character")

/-- The bytes of an even number of hexadecimal digits. -/
def hexPairs : List UInt8 → Except Exception (List UInt8)
  | [] => return []
  | [_] =>
      throw (.invalidArgument "hex string must contain an even number of digits")
  | first :: second :: rest => do
      let high ← hexNibble first
      let low ← hexNibble second
      let bytes ← hexPairs rest
      return (high <<< 4 ||| low) :: bytes

def hexToBytes (hex : List UInt8) : Except Exception (List UInt8) :=
  let digits :=
    match hex with
    | 0x30 :: 0x78 :: rest => rest
    | 0x30 :: 0x58 :: rest => rest
    | digits => digits
  if digits.length % 2 ≠ 0 then
    throw (.invalidArgument "hex string must contain an even number of digits")
  else
    hexPairs digits

namespace MinerTx

def truncated : Exception :=
  .runtimeError "truncated miner transaction prefix"

def readU8 : Cursor Exception UInt8 := takeByte truncated

/-- Read a number that must be encoded in its shortest form. -/
def readVarint : Cursor Exception Nat := do
  let before ← get
  let value ← takeVarint truncated
    (.runtimeError "miner-tx varint overflows uint64")
    (.runtimeError "miner-tx varint is too long")
  let after ← get
  if before.length - after.length ≠ (varint value).length then
    throw (.runtimeError "non-canonical miner-tx varint")
  else
    return value

def skip (count : Nat) : Cursor Exception Unit := do
  let _ ← takeBytes count truncated
  return ()

def skipBlob : Cursor Exception Unit := do
  let count ← readVarint
  skip count

def readKey : Cursor Exception ZanoCurveKey := do
  let value ← takeBigEndian 32 truncated
  return BitVec.ofNat 256 value

end MinerTx

structure TgcKeyPair where
  publicKey : ZanoCurveKey
  secretKey : ZanoCurveKey
  deriving Repr, DecidableEq

/-- The key whose bytes are the given ones. -/
def keyOfBytes (bytes : List UInt8) : ZanoCurveKey :=
  BitVec.ofNat 256 (ofBigEndian bytes)

def parseTgcKeypair
    (json : JsonBackend)
    (jsonText : List UInt8) :
    Except Exception TgcKeyPair :=
  if jsonText.isEmpty then
    throw (.runtimeError "empty miner_tx_tgc JSON")
  else
    match json jsonText (BitVec.ofNat 32 jsonText.length) with
    | none => throw (.runtimeError "invalid miner_tx_tgc JSON")
    | some root =>
        match root "tx_key" with
        | none => throw (.runtimeError "miner_tx_tgc has no string tx_key")
        | some txKeyHex => do
            let bytes ← hexToBytes txKeyHex
            if bytes.length ≠ 64 then
              throw (.runtimeError
                "miner_tx_tgc tx_key must be exactly 64 bytes")
            else
              return {
                publicKey := keyOfBytes (bytes.take 32)
                secretKey := keyOfBytes (bytes.drop 32) }

/-- Read the extra fields and return the transaction key among them. -/
def readExtraFields :
    Nat → Option ZanoCurveKey → Cursor Exception (Option ZanoCurveKey)
  | 0, found => return found
  | count + 1, found => do
      let tag ← MinerTx.readU8
      if tag = 11 ∨ tag = 19 ∨ tag = 21 then do
        MinerTx.skipBlob
        readExtraFields count found
      else if tag = 14 ∨ tag = 15 ∨ tag = 16 ∨ tag = 78 then do
        let _ ← MinerTx.readVarint
        readExtraFields count found
      else if tag = 18 then do
        let _ ← MinerTx.readVarint
        MinerTx.skip 32
        let _ ← MinerTx.readVarint
        readExtraFields count found
      else if tag = 22 then
        if found.isSome then
          throw (.runtimeError
            "miner transaction has multiple tx public keys")
        else do
          let key ← MinerTx.readKey
          readExtraFields count (some key)
      else
        throw (.runtimeError
          ("unsupported miner transaction extra tag: " ++ toString tag))

/-- The fields of a prefix up to its transaction key. -/
def prefixTxPublicKeyFields : Cursor Exception ZanoCurveKey := do
  let version ← MinerTx.readVarint
  if version ≠ 4 then
    throw (.runtimeError "unsupported miner transaction version")
  else do
    let vinCount ← MinerTx.readVarint
    if vinCount ≠ 1 then
      throw (.runtimeError
        "current PoW miner transaction must have one input")
    else do
      let input ← MinerTx.readU8
      if input ≠ 0 then
        throw (.runtimeError
          "current PoW miner transaction input is not txin_gen")
      else do
        let _ ← MinerTx.readVarint
        let extraCount ← MinerTx.readVarint
        if extraCount > 1024 then
          throw (.runtimeError
            "miner transaction has unreasonable extra count")
        else do
          let found ← readExtraFields extraCount none
          match found with
          | none =>
              throw (.runtimeError "miner transaction has no tx public key")
          | some key => return key

def parsePrefixTxPublicKey
    (minerTxPrefix : List UInt8) :
    Except Exception ZanoCurveKey := do
  let (key, _) ← prefixTxPublicKeyFields minerTxPrefix
  return key

inductive P2pMinerTxBindingStatus where
  | verified
  | notAnchored
  | backendUnavailable
  | malformedTgc
  | malformedMinerTxPrefix
  | tgcKeyPairMismatch
  | prefixPublicKeyMismatch
  deriving Repr, DecidableEq

structure P2pMinerTxBindingResult where
  status : P2pMinerTxBindingStatus := .notAnchored
  txPublicKey : ZanoCurveKey := 0
  deriving Repr, DecidableEq

def verifyMinerTxTgcKeyBinding
    (curve : CurveBackend)
    (json : JsonBackend)
    (minerTxPrefix minerTxTgcJson : List UInt8) :
    P2pMinerTxBindingResult :=
  match parseTgcKeypair json minerTxTgcJson with
  | .error _ => { status := .malformedTgc }
  | .ok keypair =>
      match parsePrefixTxPublicKey minerTxPrefix with
      | .error _ => { status := .malformedMinerTxPrefix }
      | .ok txPublicKey =>
          if !curve.available then
            { status := .backendUnavailable, txPublicKey }
          else if !curve.secretKeyMatchesPublic keypair.secretKey
              keypair.publicKey then
            { status := .tgcKeyPairMismatch, txPublicKey }
          else if keypair.publicKey ≠ txPublicKey then
            { status := .prefixPublicKeyMismatch, txPublicKey }
          else
            { status := .verified, txPublicKey }

end ZanoP2pool
