import ZanoP2pool.PplnsAllocation

namespace ZanoP2pool

open Foundation

/-!
# Coinbase payout plans

The operator fee is deducted first, the rest of the reward is allocated over the
payout window, and the fee is added to the operator destination, which is merged
with a mining destination of the same payout identity.
-/

def kZanoHf6MaxCoinbaseOutputs : Nat := 32

inductive PplnsCoinbasePlanStatus where
  | ready
  | emptyWindow
  | incompleteWindow
  | missingPayoutIdentity
  | tooManyRecipients
  | zeroPayout
  | rewardSumMismatch
  deriving Repr, DecidableEq

/-- One payout destination of a coinbase transaction. -/
structure PplnsCoinbaseDestination where
  minerId : MinerId
  payout : PayoutPublicKeys
  amount : UInt64
  deriving Repr, DecidableEq

structure PplnsCoinbasePlan where
  status : PplnsCoinbasePlanStatus := .emptyWindow
  rewardAtomic : UInt64 := 0
  destinations : List PplnsCoinbaseDestination := []
  deriving Repr, DecidableEq

/-- The largest 64-bit value. -/
def kMaxU64 : UInt64 := UInt64.ofNat (2 ^ 64 - 1)

/-- The floor of a basis-point share, computed in split 64-bit arithmetic. -/
def calculateBasisPointShare (amount basisPoints : UInt64) : Option UInt64 :=
  if basisPoints ≥ kOperatorFeeBasisPointDenominator then
    none
  else
    let whole := amount / kOperatorFeeBasisPointDenominator
    let remainder := amount % kOperatorFeeBasisPointDenominator
    if basisPoints ≠ 0 ∧ whole > kMaxU64 / basisPoints then
      none
    else
      let wholeFee := whole * basisPoints
      let remainderFee :=
        remainder * basisPoints / kOperatorFeeBasisPointDenominator
      if remainderFee > kMaxU64 - wholeFee then
        none
      else
        some (wholeFee + remainderFee)

/--
The destinations of the allocated entries and their running total, or the status
of the first entry that cannot be paid.
-/
def collectDestinations
    (backend : Backend) :
    UInt64 → List PplnsPayout →
      Except PplnsCoinbasePlanStatus
        (UInt64 × List PplnsCoinbaseDestination)
  | total, [] => .ok (total, [])
  | total, entry :: rest =>
      match entry.payout with
      | none => .error .missingPayoutIdentity
      | some payout =>
          if entry.minerId ≠ minerIdFromPayout backend payout then
            .error .missingPayoutIdentity
          else if entry.amount = 0 then
            .error .zeroPayout
          else if entry.amount > kMaxU64 - total then
            .error .rewardSumMismatch
          else do
            let (final, destinations) ←
              collectDestinations backend (total + entry.amount) rest
            return (final,
              { minerId := entry.minerId, payout, amount := entry.amount } ::
                destinations)

/-- Add the fee to the first destination that pays the operator. -/
def mergeOperatorFee
    (operatorPayout : PayoutPublicKeys)
    (operatorFee : UInt64) :
    List PplnsCoinbaseDestination →
      Option (Except PplnsCoinbasePlanStatus (List PplnsCoinbaseDestination))
  | [] => none
  | destination :: rest =>
      if destination.payout = operatorPayout then
        if operatorFee > kMaxU64 - destination.amount then
          some (.error .rewardSumMismatch)
        else
          some (.ok
            ({ destination with amount := destination.amount + operatorFee } ::
              rest))
      else
        (mergeOperatorFee operatorPayout operatorFee rest).map fun merged =>
          merged.map (destination :: ·)

/-- Pay the operator fee, in a destination of its own if none exists. -/
def addOperatorFee
    (backend : Backend)
    (operatorPayout : PayoutPublicKeys)
    (operatorFee : UInt64)
    (destinations : List PplnsCoinbaseDestination) :
    Except PplnsCoinbasePlanStatus (List PplnsCoinbaseDestination) :=
  if operatorFee = 0 then
    .ok destinations
  else
    match mergeOperatorFee operatorPayout operatorFee destinations with
    | some merged => merged
    | none =>
        if destinations.length ≥ kZanoHf6MaxCoinbaseOutputs then
          .error .tooManyRecipients
        else
          .ok (destinations ++ [{
            minerId := minerIdFromPayout backend operatorPayout
            payout := operatorPayout
            amount := operatorFee }])

/-- The destinations of an allocation with the operator fee. -/
def planDestinations
    (backend : Backend)
    (params : SidechainParameters)
    (rewardAtomic operatorFee : UInt64)
    (payouts : List PplnsPayout) :
    Except PplnsCoinbasePlanStatus (List PplnsCoinbaseDestination) :=
  if payouts.isEmpty then
    .error .emptyWindow
  else if payouts.length > kZanoHf6MaxCoinbaseOutputs - 1 ∨
      payouts.length > params.pplnsWindowShares.toNat then
    .error .tooManyRecipients
  else do
    let (total, destinations) ← collectDestinations backend 0 payouts
    if total ≠ rewardAtomic - operatorFee then
      .error .rewardSumMismatch
    else do
      let destinations ← addOperatorFee backend params.operatorFeePayout
        operatorFee destinations
      if operatorFee > kMaxU64 - total then
        .error .rewardSumMismatch
      else if total + operatorFee ≠ rewardAtomic then
        .error .rewardSumMismatch
      else
        .ok destinations

/-- A plan of a reward: the destinations when ready, none otherwise. -/
def planOf
    (rewardAtomic : UInt64) :
    Except PplnsCoinbasePlanStatus (List PplnsCoinbaseDestination) →
      PplnsCoinbasePlan
  | .error status => { status, rewardAtomic }
  | .ok destinations => { status := .ready, rewardAtomic, destinations }

/-- The canonical payout plan of a window. -/
def makePplnsCoinbasePlan
    (backend : Backend)
    (window : PplnsWindow)
    (rewardAtomic : UInt64)
    (params : SidechainParameters) :
    Except Exception PplnsCoinbasePlan := do
  let _ ← serializeSidechainParameters params
  if window.miners.isEmpty then
    return planOf rewardAtomic (.error .emptyWindow)
  else if !window.complete then
    return planOf rewardAtomic (.error .incompleteWindow)
  else
    match calculateBasisPointShare rewardAtomic
        params.operatorFeeBasisPoints with
    | none => return planOf rewardAtomic (.error .zeroPayout)
    | some operatorFee =>
        if operatorFee ≥ rewardAtomic then
          return planOf rewardAtomic (.error .zeroPayout)
        else do
          let payouts ← allocatePplnsReward backend window
            (rewardAtomic - operatorFee)
          return planOf rewardAtomic
            (planDestinations backend params rewardAtomic operatorFee payouts)

end ZanoP2pool
