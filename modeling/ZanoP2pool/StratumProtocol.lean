import ZanoP2pool.BlockSubmitter
import ZanoP2pool.Foundation.FixedDigits

namespace ZanoP2pool

open Foundation

/-!
# Stratum requests and submissions

The fields of an `eth_submitWork` request and of the work sent to miners.  Texts
are byte strings, as the JSON library hands them over and takes them.
-/

inductive StratumId where
  | null
  | integer (value : Int64)
  | text (value : List UInt8)
  deriving Repr, DecidableEq

inductive StratumMethod where
  | submitLogin
  | getWork
  | submitHashrate
  | submitWork
  | unknown
  deriving Repr, DecidableEq

structure StratumRequest where
  id : StratumId
  method : List UInt8
  params : List (List UInt8)
  worker : List UInt8
  deriving Repr, DecidableEq

structure StratumSubmission where
  nonce : UInt64
  headerHash : Hash256
  mixHash : Hash256
  worker : List UInt8
  deriving Repr, DecidableEq

/-- A target, most significant byte first. -/
structure DifficultyTarget where
  bigEndian : Hash256
  deriving Repr, DecidableEq

def DifficultyTarget.hex (target : DifficultyTarget) : List UInt8 :=
  bytesToHex (hashBytes target.bigEndian)

structure StratumWork where
  headerHash : Hash256
  seedHash : Hash256
  shareTarget : DifficultyTarget
  height : UInt64
  deriving Repr, DecidableEq

/-- The bytes of a text of the source. -/
def textBytes (text : String) : List UInt8 :=
  text.toList.map Char.toUInt8

def stratumMethod (request : StratumRequest) : StratumMethod :=
  if request.method = textBytes "eth_submitLogin" then
    .submitLogin
  else if request.method = textBytes "eth_getWork" then
    .getWork
  else if request.method = textBytes "eth_submitHashrate" then
    .submitHashrate
  else if request.method = textBytes "eth_submitWork" then
    .submitWork
  else
    .unknown

def stripHexPrefix : List UInt8 → List UInt8
  | 0x30 :: 0x78 :: rest => rest
  | 0x30 :: 0x58 :: rest => rest
  | text => text

/-- The value of a letter or a digit in a number of the given base. -/
def digitOfBase (base : Nat) (letter : UInt8) : Option Nat :=
  let value :=
    if 0x30 ≤ letter ∧ letter ≤ 0x39 then
      some (letter - 0x30).toNat
    else if 0x61 ≤ letter ∧ letter ≤ 0x7a then
      some ((letter - 0x61).toNat + 10)
    else if 0x41 ≤ letter ∧ letter ≤ 0x5a then
      some ((letter - 0x41).toNat + 10)
    else
      none
  value.filter (· < base)

inductive FromCharsError where
  | invalidArgument
  | resultOutOfRange
  deriving Repr, DecidableEq

/-- What the number reader of the standard library returns. -/
structure FromCharsResult where
  value : Except FromCharsError UInt64
  /-- The characters from the returned pointer to the end. -/
  unread : List UInt8

/--
Read an unsigned 64-bit number: the longest run of digits, without sign or
marker.
-/
def fromChars (base : Nat) (text : List UInt8) : FromCharsResult :=
  let digits := text.takeWhile fun letter => (digitOfBase base letter).isSome
  let unread := text.dropWhile fun letter => (digitOfBase base letter).isSome
  if digits.isEmpty then
    ⟨.error .invalidArgument, text⟩
  else
    let value := digitsValue base (digits.filterMap (digitOfBase base))
    if value < 2 ^ 64 then
      ⟨.ok (UInt64.ofNat value), unread⟩
    else
      ⟨.error .resultOutOfRange, unread⟩

def parseHexU64 (text : List UInt8) : Except Exception UInt64 :=
  let digits := stripHexPrefix text
  if digits.isEmpty ∨ digits.length > 16 then
    throw (.runtimeError "Stratum nonce must contain 1..16 hex digits")
  else
    let result := fromChars 16 digits
    match result.value with
    | .ok value =>
        if result.unread.isEmpty then
          return value
        else
          throw (.runtimeError "invalid Stratum nonce hex")
    | .error _ =>
        throw (.runtimeError "invalid Stratum nonce hex")

/-- The bytes of a digest; the array is zero where nothing is copied. -/
def parseHashHex
    (text : List UInt8)
    (field : String) :
    Except Exception Hash256 := do
  let digits := stripHexPrefix text
  if digits.length ≠ 64 then
    throw (.runtimeError (field ++ " must be exactly 32 bytes"))
  else
    let bytes ← hexToBytes digits
    let copied := bytes ++ List.replicate (32 - bytes.length) 0
    return BitVec.ofNat 256 (ofBigEndian copied)

def parseStratumSubmission
    (request : StratumRequest) :
    Except Exception StratumSubmission := do
  if stratumMethod request ≠ .submitWork then
    throw (.runtimeError "request is not eth_submitWork")
  else
    match request.params with
    | [nonceText, headerText, mixText] =>
        let nonce ← parseHexU64 nonceText
        let headerHash ← parseHashHex headerText "Stratum header hash"
        let mixHash ← parseHashHex mixText "Stratum mix hash"
        return { nonce, headerHash, mixHash, worker := request.worker }
    | _ =>
        throw (.runtimeError "eth_submitWork expects nonce, header, and mix hash")

def hashToHex (hash : Hash256) : List UInt8 :=
  bytesToHex (hashBytes hash)

/-- Sixteen lowercase digits, padded by zeros. -/
def stratumUint64Hex (value : UInt64) : List UInt8 :=
  [0x30, 0x78] ++
    (fixedDigits 16 16 value.toNat).map fun digit => hexDigit (UInt8.ofNat digit)

/-- The four strings of a work notification. -/
def makeWorkArray (work : StratumWork) : List (List UInt8) :=
  let header := [0x30, 0x78] ++ hashToHex work.headerHash
  let seed := [0x30, 0x78] ++ hashToHex work.seedHash
  let target := [0x30, 0x78] ++ work.shareTarget.hex
  let height := stratumUint64Hex work.height
  [header, seed, target, height]

end ZanoP2pool
