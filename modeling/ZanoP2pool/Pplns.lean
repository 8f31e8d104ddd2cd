import ZanoP2pool.ShareChain

namespace ZanoP2pool

open Foundation

/-!
# PPLNS payout windows

The payout window of a parent credits the newest shares of its branch until a
requested amount of work is covered, and a reward is divided over the credited
rows by largest remainders.  The unbounded integers of the source are natural
numbers: no value of these functions is ever negative.
-/

/-- Credited work of one miner. -/
structure PplnsMinerWork where
  minerId : MinerId
  work : ChainWork
  payout : Option PayoutPublicKeys
  deriving Repr, DecidableEq

structure PplnsWindow where
  requestedWork : ChainWork := 0
  coveredWork : ChainWork := 0
  includedShares : Nat := 0
  complete : Bool := false
  miners : List PplnsMinerWork := []
  deriving Repr, DecidableEq

/-- The part of a reward that goes to one miner. -/
structure PplnsPayout where
  minerId : MinerId
  work : ChainWork
  amount : UInt64
  payout : Option PayoutPublicKeys
  deriving Repr, DecidableEq

/-- Store a work value in 256 bits. -/
def intToWork (value : Nat) : Except Exception ChainWork :=
  if value < 2 ^ 256 then
    .ok (BitVec.ofNat 256 value)
  else
    .error (.overflowError "PPLNS work exceeds 256 bits")

/-- Work and payout identity collected for one miner. -/
structure CreditedWork where
  work : Nat := 0
  payout : Option PayoutPublicKeys := none
  deriving Repr, DecidableEq

/-- On a configured chain only validated ancestry earns payout work. -/
def requireValidatedPayoutAncestry
    (chain : ShareChain)
    (connected : ConnectedShare) :
    Except Exception Unit :=
  if chain.enforcesSidechainDifficulty && !connected.validatedAncestry then
    .error (.logicError
      "PPLNS encountered connected share without validated ancestry")
  else
    .ok ()

/-- Attach the payout identity of a share to the row of its miner. -/
def mergePayoutIdentity
    (backend : Backend)
    (credited : CreditedWork)
    (share : Share) :
    Except Exception CreditedWork :=
  match share.payout with
  | none => .ok credited
  | some payout =>
      if share.version ≠ kShareVersion2 ∨
          share.minerId ≠ minerIdFromPayout backend payout then
        .error (.logicError "PPLNS encountered invalid v2 payout binding")
      else if credited.payout.isSome ∧ credited.payout ≠ some payout then
        .error (.logicError
          "PPLNS MinerId has conflicting payout identities")
      else
        .ok { credited with payout := some payout }

/-- Work of a connected share as a number. -/
def connectedShareWork (share : Share) : Except Exception Nat := do
  let work ← shareWork share.shareDifficulty
  if work.toNat = 0 then
    .error (.logicError "connected share has zero work")
  else
    .ok work.toNat

/-- State of the walk that fills a window. -/
structure WindowWalk where
  remaining : Nat
  includedShares : Nat := 0
  credited : Std.ExtTreeMap MinerId CreditedWork := ∅

/-- Credit one share of the walk, at most the remaining work. -/
def creditShare
    (backend : Backend)
    (chain : ShareChain)
    (current : ConnectedShare)
    (walk : WindowWalk) :
    Except Exception WindowWalk := do
  requireValidatedPayoutAncestry chain current
  let currentWork ← connectedShareWork current.share
  let included := min currentWork walk.remaining
  let row := walk.credited[current.share.minerId]?.getD {}
  let merged ← mergePayoutIdentity backend
    { row with work := row.work + included } current.share
  return {
    remaining := walk.remaining - included
    includedShares := walk.includedShares + 1
    credited := walk.credited.insert current.share.minerId merged }

/--
Walk towards the root until nothing remains to be credited.  Every share takes
at least one unit off what remains, so that amount is a sufficient budget.
-/
def creditShares
    (backend : Backend)
    (chain : ShareChain) :
    Nat → ConnectedShare → WindowWalk → Except Exception WindowWalk
  | 0, _, walk => .ok walk
  | budget + 1, current, walk =>
      if walk.remaining = 0 then
        .ok walk
      else do
        let walk ← creditShare backend chain current walk
        if walk.remaining = 0 ∨
            isZeroShareId current.share.parentId = true then
          .ok walk
        else
          match chain.find current.share.parentId with
          | none =>
              .error (.logicError
                "best-chain PPLNS traversal encountered a missing parent")
          | some parent => creditShares backend chain budget parent walk

/-- The parent entry a window starts from; none for the zero parent. -/
def pplnsParent
    (chain : ShareChain)
    (parentId : ShareId) :
    Except Exception (Option ConnectedShare) :=
  if isZeroShareId parentId then
    .ok none
  else
    match chain.find parentId with
    | none => .error (.invalidArgument "PPLNS parent is not connected")
    | some parent => .ok (some parent)

/-- The row of one credited miner. -/
def minerRow
    (item : MinerId × CreditedWork) :
    Except Exception PplnsMinerWork := do
  let work ← intToWork item.2.work
  return { minerId := item.1, work, payout := item.2.payout }

/-- Credit the newest shares at a parent until the requested work is covered. -/
def buildPplnsWindowAtParent
    (backend : Backend)
    (chain : ShareChain)
    (parentId : ShareId)
    (requestedWork : ChainWork) :
    Except Exception PplnsWindow :=
  let requested := requestedWork.toNat
  if requested = 0 then
    .error (.invalidArgument "PPLNS requested work must be nonzero")
  else do
    let start ← pplnsParent chain parentId
    let walk ←
      match start with
      | none => .ok { remaining := requested }
      | some current =>
          creditShares backend chain requested current
            { remaining := requested }
    let coveredWork ← intToWork (requested - walk.remaining)
    let miners ←
      (walk.credited.toList.filter fun item => item.2.work ≠ 0).mapM minerRow
    return {
      requestedWork, coveredWork
      includedShares := walk.includedShares
      complete := walk.remaining == 0
      miners }

/-- Total work of at most `budget` newest shares of a branch. -/
def recentWork
    (chain : ShareChain) :
    Nat → ConnectedShare → Except Exception Nat
  | 0, _ => .ok 0
  | budget + 1, current => do
      requireValidatedPayoutAncestry chain current
      let currentWork ← connectedShareWork current.share
      if isZeroShareId current.share.parentId then
        .ok currentWork
      else
        match chain.find current.share.parentId with
        | none =>
            .error (.logicError
              "best-chain PPLNS traversal encountered a missing parent")
        | some parent => do
            let older ← recentWork chain budget parent
            .ok (currentWork + older)

/-- The policy checks on the parameters of a sidechain window. -/
def checkPplnsPolicy
    (params : SidechainParameters)
    (networkDifficulty : Difficulty128) :
    Except Exception Unit :=
  if params.pplnsWindowShares = 0 ∨
      params.pplnsWindowShares > kCanonicalPplnsWindowShares then
    .error (.invalidArgument
      "sidechain PPLNS share window must be between 1 and 31")
  else if params.pplnsMaxNetworkDifficultyMultiplier = 0 then
    .error (.invalidArgument
      "sidechain PPLNS network-difficulty multiplier must be nonzero")
  else if difficulty128IsZero networkDifficulty then
    .error (.invalidArgument
      "sidechain PPLNS network difficulty must be nonzero")
  else
    .ok ()

/-- The payout window of a sidechain at a parent. -/
def buildSidechainPplnsWindowAtParent
    (backend : Backend)
    (chain : ShareChain)
    (parentId : ShareId)
    (params : SidechainParameters)
    (networkDifficulty : Difficulty128) :
    Except Exception PplnsWindow := do
  checkPplnsPolicy params networkDifficulty
  match ← pplnsParent chain parentId with
  | none => return {}
  | some current =>
      let recent ← recentWork chain params.pplnsWindowShares.toNat current
      let networkWork ← shareWork networkDifficulty
      let workCap := networkWork.toNat *
        params.pplnsMaxNetworkDifficultyMultiplier.toNat
      let requested := min recent workCap
      if requested = 0 then
        .error (.logicError "sidechain PPLNS policy produced zero work")
      else do
        let requestedWork ← intToWork requested
        let window ←
          buildPplnsWindowAtParent backend chain parentId requestedWork
        if !window.complete ||
            decide (window.includedShares >
              params.pplnsWindowShares.toNat) then
          .error (.logicError "sidechain PPLNS policy bound was violated")
        else
          return window

/-- Add one row of a window to the work collected per miner. -/
def aggregateRow
    (backend : Backend)
    (credited : Std.ExtTreeMap MinerId CreditedWork)
    (row : PplnsMinerWork) :
    Except Exception (Std.ExtTreeMap MinerId CreditedWork) :=
  if row.work.toNat = 0 then
    .ok credited
  else
    let before := credited[row.minerId]?.getD {}
    let aggregate := { before with work := before.work + row.work.toNat }
    match row.payout with
    | none => .ok (credited.insert row.minerId aggregate)
    | some payout =>
        if row.minerId ≠ minerIdFromPayout backend payout then
          .error (.logicError "PPLNS row has invalid payout binding")
        else if aggregate.payout.isSome ∧
            aggregate.payout ≠ some payout then
          .error (.logicError "PPLNS payout rows conflict for one MinerId")
        else
          .ok (credited.insert row.minerId
            { aggregate with payout := some payout })

/-- A miner with the remainder of its division and its place in the result. -/
structure FractionalRow where
  minerId : MinerId
  remainder : Nat
  payoutIndex : Nat
  deriving Repr, DecidableEq

/-- Larger remainders first, then smaller miner identities. -/
def fractionalBefore (left right : FractionalRow) : Prop :=
  right.remainder < left.remainder ∨
    left.remainder = right.remainder ∧ left.minerId ≤ right.minerId

instance : DecidableRel fractionalBefore := by
  intro left right
  unfold fractionalBefore
  infer_instance

/-- The floor allocations of the miners and their remainders, in order. -/
def floorPayouts
    (rewardAtomic : UInt64)
    (totalWork : Nat) :
    UInt64 → Nat → List (MinerId × CreditedWork) →
      Except Exception (UInt64 × List PplnsPayout × List FractionalRow)
  | allocated, _, [] => .ok (allocated, [], [])
  | allocated, index, (minerId, row) :: rest => do
      let numerator := rewardAtomic.toNat * row.work
      let amount := UInt64.ofNat (numerator / totalWork)
      if amount > rewardAtomic - allocated then
        .error (.overflowError "PPLNS reward allocation overflow")
      else do
        let work ← intToWork row.work
        let (final, payouts, fractional) ←
          floorPayouts rewardAtomic totalWork (allocated + amount)
            (index + 1) rest
        return (final,
          { minerId, work, amount, payout := row.payout } :: payouts,
          { minerId
            remainder := numerator % totalWork
            payoutIndex := index } :: fractional)

/-- Give one leftover unit to the miner of a fractional row. -/
def addLeftoverUnit
    (payouts : List PplnsPayout)
    (row : FractionalRow) :
    List PplnsPayout :=
  payouts.modify row.payoutIndex fun payout =>
    { payout with amount := payout.amount + 1 }

/-- Divide a reward over the rows of a window by largest remainders. -/
def allocatePplnsReward
    (backend : Backend)
    (window : PplnsWindow)
    (rewardAtomic : UInt64) :
    Except Exception (List PplnsPayout) := do
  let credited ← window.miners.foldlM (aggregateRow backend) ∅
  let rows := credited.toList
  if rows.isEmpty then
    .ok []
  else
    let totalWork := (rows.map fun item => item.2.work).sum
    if totalWork = 0 then
      .error (.logicError "PPLNS payout has no credited work")
    else do
      let (allocated, payouts, fractional) ←
        floorPayouts rewardAtomic totalWork 0 0 rows
      let leftover := rewardAtomic - allocated
      if leftover.toNat > fractional.length then
        .error (.logicError
          "PPLNS largest-remainder invariant exceeded miner count")
      else
        let ordered := fractional.insertionSort fractionalBefore
        return (ordered.take leftover.toNat).foldl addLeftoverUnit payouts

end ZanoP2pool
