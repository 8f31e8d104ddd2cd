import ZanoP2pool.Share

namespace ZanoP2pool

open Foundation

/-!
# Sidechain difficulty retarget

The difficulty required of the next share on one branch, computed from the
newest samples of that branch.  Arbitrary-precision integers of the source are
natural numbers; the 64-bit timestamp arithmetic keeps its machine width.
-/

/-- 32-byte big-endian cumulative work. -/
abbrev ChainWork := BitVec 256

/-- Timestamp and cumulative work of one share of the measured branch. -/
structure SidechainDifficultySample where
  timestamp : UInt64
  cumulativeWork : ChainWork
  deriving Repr, DecidableEq

/-- Store a positive integer of at most 128 bits as a difficulty. -/
def intToDifficulty128 (value : Nat) : Except Exception Difficulty128 :=
  if value = 0 then
    .error (.runtimeError "sidechain difficulty must be positive")
  else if value ≥ 2 ^ 128 then
    .error (.runtimeError "sidechain difficulty exceeds 128 bits")
  else
    .ok (BitVec.ofNat 128 value)

/-- The least timestamp of the samples; the greatest 64-bit value if none. -/
def oldestTimestamp (samples : List SidechainDifficultySample) : UInt64 :=
  samples.foldl
    (fun oldest sample =>
      if sample.timestamp < oldest then sample.timestamp else oldest)
    (UInt64.ofNat (2 ^ 64 - 1))

/-- Offset of one sample from the oldest one, which must fit 32 bits. -/
def timestampDelta
    (oldest : UInt64)
    (sample : SidechainDifficultySample) :
    Except Exception UInt64 :=
  let delta := sample.timestamp - oldest
  if delta > UInt64.ofNat (2 ^ 32 - 1) then
    .error (.runtimeError
      "sidechain difficulty timestamp range is too large")
  else
    .ok delta

/-- Least and greatest cumulative work of a sample list, if it is nonempty. -/
def workRange :
    List SidechainDifficultySample → Option (Nat × Nat)
  | [] => none
  | sample :: rest =>
      some (rest.foldl
        (fun range other =>
          (min range.1 other.cumulativeWork.toNat,
            max range.2 other.cumulativeWork.toNat))
        (sample.cumulativeWork.toNat, sample.cumulativeWork.toNat))

/--
The difficulty of the next share built on a branch whose samples are given
newest first.  The oldest and newest tenth by timestamp are discarded, the
work across the retained band is scaled to the target interval, and the result
is clamped between the configured minimum and the network difficulty.
-/
def calculateNextSidechainDifficulty
    (history : List SidechainDifficultySample)
    (targetShareSeconds minimumShareDifficulty
      difficultyWindowShares : UInt64)
    (networkDifficulty : Difficulty128) :
    Except Exception Difficulty128 := do
  if targetShareSeconds = 0 ∨ minimumShareDifficulty = 0 ∨
      difficultyWindowShares < 2 then
    throw (.invalidArgument "invalid sidechain difficulty parameters")
  if difficulty128IsZero networkDifficulty then
    throw (.invalidArgument "network difficulty must be nonzero")
  let network := networkDifficulty.toNat
  let effectiveMinimum := min minimumShareDifficulty.toNat network
  if history.isEmpty then
    return ← intToDifficulty128 effectiveMinimum
  let sampleCount := min history.length difficultyWindowShares.toNat
  let samples := history.take sampleCount
  let oldest := oldestTimestamp samples
  let timestampDeltas ← samples.mapM (timestampDelta oldest)
  let cutSize := (sampleCount + 9) / 10
  let index1 := cutSize - 1
  let index2 := sampleCount - cutSize
  -- `nth_element` leaves the element of that rank at the requested index.
  let ranked := timestampDeltas.insertionSort (· ≤ ·)
  let timestamp1 := oldest + ranked.getD index1 0
  let timestamp2 := oldest + ranked.getD index2 0
  let deltaIndex : Nat := if index2 > index1 then index2 - index1 else 1
  let timestampSpan : UInt64 :=
    if timestamp2 > timestamp1 then timestamp2 - timestamp1 else 0
  let deltaT := max timestampSpan.toNat deltaIndex
  let retained := samples.filter fun sample =>
    decide (timestamp1 ≤ sample.timestamp) &&
      decide (sample.timestamp ≤ timestamp2)
  match workRange retained with
  | none =>
      throw (.runtimeError "sidechain difficulty retained no samples")
  | some (minimumWork, maximumWork) =>
      let next :=
        (maximumWork - minimumWork) * targetShareSeconds.toNat / deltaT
      intToDifficulty128 (min (max next effectiveMinimum) network)

end ZanoP2pool
