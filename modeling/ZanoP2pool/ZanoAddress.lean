import ZanoP2pool.Foundation.BigEndian
import ZanoP2pool.Share

namespace ZanoP2pool

open Foundation

/-!
# Payout addresses

A standard address is the block-wise base-58 encoding of a prefix, two public
keys and a checksum.  A string is the list of its bytes; the value of a block is
kept in 128 bits and wraps as in the source.
-/

def kZanoStandardAddressBase58Prefix : Nat := 0xc5

def kBase58Alphabet : List UInt8 :=
  "123456789ABCDEFGHJKLMNPQRSTUVWXYZabcdefghijkmnopqrstuvwxyz".toList.map
    fun character => UInt8.ofNat character.toNat

def kEncodedBlockSizes : List Nat := [0, 2, 3, 5, 6, 7, 9, 10, 11]

def kDecodedFullBlockSize : Nat := 8

def kEncodedFullBlockSize : Nat := 11

def kAddressChecksumSize : Nat := 4

def kClassicAddressPayloadSize : Nat := 64

inductive ZanoAddressDecodeStatus where
  | valid
  | invalidBase58
  | invalidChecksum
  | invalidPrefix
  | unsupportedPayload
  deriving Repr, DecidableEq

structure ZanoAddressDecodeResult where
  status : ZanoAddressDecodeStatus := .invalidBase58
  payout : PayoutPublicKeys := { spendPublicKey := 0, viewPublicKey := 0 }
  deriving Repr, DecidableEq

/-- The number of bytes whose encoding has the given number of digits. -/
def decodedBlockSize (encodedSize : Nat) : Option Nat :=
  kEncodedBlockSizes.idxOf? encodedSize

def base58Digit (character : UInt8) : Option Nat :=
  kBase58Alphabet.idxOf? character

/-- The value of a block's digits, modulo 2^128. -/
def blockValue : List UInt8 → BitVec 128 → Option (BitVec 128)
  | [], value => some value
  | character :: rest, value =>
      match base58Digit character with
      | none => none
      | some digit => blockValue rest (value * 58 + BitVec.ofNat 128 digit)

/-- The low bytes of a value, filled from the last one. -/
def blockBytes : Nat → BitVec 128 → List UInt8
  | 0, _ => []
  | size + 1, value =>
      blockBytes size (value >>> 8) ++ [UInt8.ofNat (value &&& 0xff).toNat]

def decodeBlock (encoded : List UInt8) (outputSize : Nat) :
    Option (List UInt8) :=
  if encoded.isEmpty ∨ outputSize = 0 ∨ outputSize > 8 then
    none
  else
    match blockValue encoded 0 with
    | none => none
    | some value =>
        if value ≥ (1 : BitVec 128) <<< (outputSize * 8) then
          none
        else
          some (blockBytes outputSize value)

/-- The bytes of a number of full blocks from a block index on. -/
def decodeFullBlocks
    (encoded : List UInt8) :
    Nat → Nat → Option (List UInt8)
  | 0, _ => some []
  | blocks + 1, index =>
      match decodeBlock
          ((encoded.drop (index * kEncodedFullBlockSize)).take
            kEncodedFullBlockSize) kDecodedFullBlockSize with
      | none => none
      | some block =>
          (decodeFullBlocks encoded blocks (index + 1)).map (block ++ ·)

def decodeBase58 (encoded : List UInt8) : Option (List UInt8) :=
  if encoded.isEmpty then
    some []
  else
    let fullBlocks := encoded.length / kEncodedFullBlockSize
    let remainder := encoded.length % kEncodedFullBlockSize
    match decodedBlockSize remainder with
    | none => none
    | some tailSize =>
        match decodeFullBlocks encoded fullBlocks 0 with
        | none => none
        | some decoded =>
            if remainder ≠ 0 then
              (decodeBlock
                ((encoded.drop (fullBlocks * kEncodedFullBlockSize)).take
                  remainder) tailSize).map (decoded ++ ·)
            else
              some decoded

/--
Read a number that must be in its shortest form from an index on; its value and
the number of bytes up to its end.
-/
def readCanonicalVarintFrom
    (bytes : List UInt8) :
    Nat → Nat → Nat → Nat → Option (Nat × Nat)
  | 0, _, _, _ => none
  | budget + 1, index, shift, value =>
      match bytes[index]? with
      | none => none
      | some byte =>
          let part := (byte &&& 0x7f).toNat
          if shift ≥ 64 ∨ (shift = 63 ∧ part > 1) then
            none
          else
            let value := value ||| part <<< shift
            if byte &&& 0x80 = 0 then
              let consumed := index + 1
              if consumed > 1 ∧ part = 0 then none else some (value, consumed)
            else
              readCanonicalVarintFrom bytes budget (index + 1) (shift + 7)
                value

def readCanonicalVarint (bytes : List UInt8) : Option (Nat × Nat) :=
  readCanonicalVarintFrom bytes 10 0 0 0

def decodeZanoStandardAddress
    (backend : Backend)
    (address : List UInt8) :
    ZanoAddressDecodeResult :=
  match decodeBase58 address with
  | none => { status := .invalidBase58 }
  | some decoded =>
      if decoded.length ≤ kAddressChecksumSize then
        { status := .invalidBase58 }
      else
        let contentSize := decoded.length - kAddressChecksumSize
        let content := decoded.take contentSize
        let checksumHash := backend.cnFastHash content
        if decoded.drop contentSize ≠
            (hashBytes checksumHash).take (decoded.length - contentSize) then
          { status := .invalidChecksum }
        else
          match readCanonicalVarint content with
          | none => { status := .invalidPrefix }
          | some (addressPrefix, prefixSize) =>
              if addressPrefix ≠ kZanoStandardAddressBase58Prefix then
                { status := .invalidPrefix }
              else if content.length - prefixSize ≠
                  kClassicAddressPayloadSize then
                { status := .unsupportedPayload }
              else
                let payload := content.drop prefixSize
                { status := .valid
                  payout := {
                    spendPublicKey :=
                      BitVec.ofNat 256 (ofBigEndian (payload.take 32))
                    viewPublicKey :=
                      BitVec.ofNat 256
                        (ofBigEndian ((payload.drop 32).take 32)) } }

end ZanoP2pool
