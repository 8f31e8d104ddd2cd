import ZanoP2pool.P2pMinerTxBinding
import ZanoP2pool.PplnsCoinbase

namespace ZanoP2pool

open Foundation

/-!
# Payout policy of miner transactions

The outputs of a miner transaction are checked against the destinations they must
pay.  A plan lists several destinations; the order of the outputs and the way an
amount is split over them are free.
-/

def kCurrentMinerMinOutputs : Nat := 2

def kCurrentMinerMaxOutputs : Nat := 32

def kNativeCoinAssetId1Div8 : ZanoCurveKey :=
  0x74c32d3eaafafc623bf483e858d42e8bf4ec7df064ada2e34934469cff6b6268#256

/-- Skip one extra field with the given tag. -/
def skipCurrentExtra (tag : UInt8) : Cursor Exception Unit :=
  if tag = 11 ∨ tag = 19 ∨ tag = 21 then
    MinerTx.skipBlob
  else if tag = 14 ∨ tag = 15 ∨ tag = 16 ∨ tag = 78 then do
    let _ ← MinerTx.readVarint
    return ()
  else if tag = 18 then do
    let _ ← MinerTx.readVarint
    MinerTx.skip 32
    let _ ← MinerTx.readVarint
    return ()
  else if tag = 22 then
    MinerTx.skip 32
  else
    throw (.runtimeError "unsupported current miner-tx extra tag")

/-- Skip a number of extra fields. -/
def skipCurrentExtras : Nat → Cursor Exception Unit
  | 0 => return ()
  | count + 1 => do
      let tag ← MinerTx.readU8
      skipCurrentExtra tag
      skipCurrentExtras count

structure ParsedPayoutOutput where
  stealthAddress : ZanoCurveKey
  concealingPoint : ZanoCurveKey
  amountCommitment : ZanoCurveKey
  blindedAssetId : ZanoCurveKey
  deriving Repr, DecidableEq

/-- Read one output of the current format. -/
def readPayoutOutput : Cursor Exception ParsedPayoutOutput := do
  let tag ← MinerTx.readU8
  if tag ≠ 63 then
    throw (.runtimeError "current miner output is not tx_out_zarcanum")
  else do
    let version ← MinerTx.readU8
    if version ≠ 0 then
      throw (.runtimeError "unsupported tx_out_zarcanum version")
    else do
      let stealthAddress ← MinerTx.readKey
      let concealingPoint ← MinerTx.readKey
      let amountCommitment ← MinerTx.readKey
      let blindedAssetId ← MinerTx.readKey
      MinerTx.skip (8 + 8 + 1)
      return {
        stealthAddress, concealingPoint, amountCommitment, blindedAssetId }

/-- Read a number of outputs. -/
def readPayoutOutputs : Nat → Cursor Exception (List ParsedPayoutOutput)
  | 0 => return []
  | count + 1 => do
      let output ← readPayoutOutput
      let outputs ← readPayoutOutputs count
      return output :: outputs

/-- The fields of a prefix, up to the end of the bytes. -/
def currentOutputsFields : Cursor Exception (List ParsedPayoutOutput) := do
  let version ← MinerTx.readVarint
  if version ≠ 4 then
    throw (.runtimeError "unsupported miner transaction version")
  else do
    let vinCount ← MinerTx.readVarint
    if vinCount ≠ 1 then
      throw (.runtimeError
        "current PoW miner transaction must have txin_gen")
    else do
      let input ← MinerTx.readU8
      if input ≠ 0 then
        throw (.runtimeError
          "current PoW miner transaction must have txin_gen")
      else do
        let _ ← MinerTx.readVarint
        let extraCount ← MinerTx.readVarint
        if extraCount > 1024 then
          throw (.runtimeError
            "unreasonable miner transaction extra count")
        else do
          skipCurrentExtras extraCount
          let outputCount ← MinerTx.readVarint
          if outputCount > kCurrentMinerMaxOutputs then
            throw (.runtimeError "miner transaction has too many outputs")
          else do
            let outputs ← readPayoutOutputs outputCount
            let hardforkId ← MinerTx.readU8
            let rest ← get
            if hardforkId ≠ 6 ∨ rest ≠ [] then
              throw (.runtimeError
                "unexpected current miner hardfork/trailing data")
            else
              return outputs

def parseCurrentOutputs
    (minerTxPrefix : List UInt8) :
    Except Exception (List ParsedPayoutOutput) := do
  let (outputs, _) ← currentOutputsFields minerTxPrefix
  return outputs

def kMaxInt : Nat := 2 ^ 31 - 1

def parseTgcJson
    (json : JsonBackend)
    (jsonText : List UInt8) :
    Except Exception JsonObject :=
  if jsonText.isEmpty ∨ jsonText.length > kMaxInt then
    throw (.runtimeError "invalid miner_tx_tgc JSON size")
  else
    match json jsonText (BitVec.ofNat 32 jsonText.length) with
    | none => throw (.runtimeError "invalid miner_tx_tgc JSON")
    | some root => return root

def getStringField
    (root : JsonObject)
    (name : String) :
    Except Exception (List UInt8) :=
  match root name with
  | none => throw (.runtimeError ("missing TGC string field: " ++ name))
  | some text => return text

/-- Whether a byte is a blank or a tabulator. -/
def isBlank (byte : UInt8) : Bool :=
  byte = 0x20 ∨ byte = 0x09

/-- A text without its leading and trailing blanks. -/
def trimBlanks (text : List UInt8) : List UInt8 :=
  ((text.dropWhile isBlank).reverse.dropWhile isBlank).reverse

/-- The scalars between the commas of a list; only the last may be blank. -/
def parseScalars : List (List UInt8) → Except Exception (List ZanoCurveKey)
  | [] => return []
  | segment :: rest =>
      let field := trimBlanks segment
      if field = [] then
        if rest = [] then
          return []
        else
          throw (.runtimeError "empty scalar in TGC list")
      else do
        let bytes ← hexToBytes field
        if bytes.length ≠ 32 then
          throw (.runtimeError "TGC scalar must be exactly 32 bytes")
        else do
          let scalars ← parseScalars rest
          return keyOfBytes bytes :: scalars

def parseScalarList
    (text : List UInt8) :
    Except Exception (List ZanoCurveKey) :=
  parseScalars (text.splitOn 0x2c)

def scalarToU64 (scalar : ZanoCurveKey) : Except Exception UInt64 :=
  let bytes := hashBytes scalar
  if (bytes.drop 8).any (· ≠ 0) then
    throw (.runtimeError "TGC amount does not fit uint64")
  else
    return UInt64.ofNat (ofBigEndian (bytes.take 8).reverse)

structure ParsedTgcPayoutData where
  txSecretKey : ZanoCurveKey
  amounts : List UInt64
  amountBlindingMasks : List ZanoCurveKey
  assetIdBlindingMasks : List ZanoCurveKey
  deriving Repr, DecidableEq

def parseTgcPayoutData
    (json : JsonBackend)
    (jsonText : List UInt8) :
    Except Exception ParsedTgcPayoutData := do
  let root ← parseTgcJson json jsonText
  let txKeyHex ← getStringField root "tx_key"
  let txKeyBytes ← hexToBytes txKeyHex
  if txKeyBytes.length ≠ 64 then
    throw (.runtimeError "TGC tx_key must be exactly 64 bytes")
  else do
    let amountsText ← getStringField root "amounts"
    let amountScalars ← parseScalarList amountsText
    let amounts ← amountScalars.mapM scalarToU64
    let masksText ← getStringField root "amount_blinding_masks"
    let amountBlindingMasks ← parseScalarList masksText
    let assetMasksText ← getStringField root "asset_id_blinding_masks"
    let assetIdBlindingMasks ← parseScalarList assetMasksText
    return {
      txSecretKey := keyOfBytes (txKeyBytes.drop 32)
      amounts, amountBlindingMasks, assetIdBlindingMasks }

inductive P2pPayoutPolicyStatus where
  | verified
  | notAnchored
  | keyBindingFailed
  | backendUnavailable
  | malformedTgc
  | malformedMinerTxPrefix
  | invalidOutputCount
  | rewardMetadataMismatch
  | tgcOutputCountMismatch
  | nonNativeAsset
  | destinationMismatch
  | amountCommitmentMismatch
  | rewardSumMismatch
  | payoutPlanMismatch
  deriving Repr, DecidableEq

structure P2pPayoutPolicyResult where
  status : P2pPayoutPolicyStatus := .malformedMinerTxPrefix
  bindingStatus : P2pMinerTxBindingStatus := .malformedMinerTxPrefix
  outputCount : Nat := 0
  verifiedReward : UInt64 := 0
  deriving Repr, DecidableEq

/-- One output with what the text says about it. -/
structure PayoutRow where
  output : ParsedPayoutOutput
  amount : UInt64
  amountBlindingMask : ZanoCurveKey
  assetIdBlindingMask : ZanoCurveKey
  deriving Repr, DecidableEq

/-- The outputs side by side with the lists of the text. -/
def payoutRows
    (outputs : List ParsedPayoutOutput)
    (tgc : ParsedTgcPayoutData) :
    List PayoutRow :=
  List.zipWith (fun (output, amount) (amountBlindingMask, assetIdBlindingMask) =>
      { output, amount, amountBlindingMask, assetIdBlindingMask })
    (outputs.zip tgc.amounts)
    (tgc.amountBlindingMasks.zip tgc.assetIdBlindingMasks)

/-- The checks every form of the policy makes before it looks at outputs. -/
def checkPayoutBinding
    (curve : CurveBackend)
    (json : JsonBackend)
    (minerTxPrefix minerTxTgcJson : List UInt8)
    (blockRewardWithoutFee blockReward : UInt64) :
    Except P2pPayoutPolicyResult P2pPayoutPolicyResult :=
  let binding :=
    (verifyMinerTxTgcKeyBinding curve json minerTxPrefix
      minerTxTgcJson).status
  let result : P2pPayoutPolicyResult := { bindingStatus := binding }
  if binding ≠ .verified then
    .error { result with
      status :=
        if binding = .backendUnavailable then .backendUnavailable
        else .keyBindingFailed }
  else if !curve.available then
    .error { result with status := .backendUnavailable }
  else if blockRewardWithoutFee = 0 ∨
      blockReward ≠ blockRewardWithoutFee then
    .error { result with status := .rewardMetadataMismatch }
  else
    .ok result

/-- The outputs of the prefix with the lists of the text. -/
def readPayoutRows
    (json : JsonBackend)
    (minerTxPrefix minerTxTgcJson : List UInt8)
    (result : P2pPayoutPolicyResult) :
    Except P2pPayoutPolicyResult
      (P2pPayoutPolicyResult × ZanoCurveKey × List PayoutRow) :=
  match parseCurrentOutputs minerTxPrefix with
  | .error _ => .error { result with status := .malformedMinerTxPrefix }
  | .ok outputs =>
      let counted := { result with outputCount := outputs.length }
      if outputs.length < kCurrentMinerMinOutputs ∨
          outputs.length > kCurrentMinerMaxOutputs then
        .error { counted with status := .invalidOutputCount }
      else
        match parseTgcPayoutData json minerTxTgcJson with
        | .error _ => .error { counted with status := .malformedTgc }
        | .ok tgc =>
            if tgc.amounts.length ≠ outputs.length ∨
                tgc.amountBlindingMasks.length ≠ outputs.length ∨
                tgc.assetIdBlindingMasks.length ≠ outputs.length then
              .error { counted with status := .tgcOutputCountMismatch }
            else
              .ok (counted, tgc.txSecretKey, payoutRows outputs tgc)

/-- Whether an output is in the native coin. -/
def PayoutRow.native (row : PayoutRow) : Bool :=
  row.output.blindedAssetId = kNativeCoinAssetId1Div8 ∧
    row.assetIdBlindingMask = 0

/-- Whether the commitment of an output is to its amount. -/
def PayoutRow.committed (curve : CurveBackend) (row : PayoutRow) : Bool :=
  curve.amountCommitmentMatches row.amount row.amountBlindingMask
    row.output.blindedAssetId row.output.amountCommitment

/-- The stealth address of a payout identity at an output index. -/
def stealthAddressOf
    (curve : CurveBackend)
    (txSecretKey : ZanoCurveKey)
    (payout : PayoutPublicKeys)
    (index : Nat) :
    Option ZanoCurveKey :=
  curve.deriveOutputPublicKey txSecretKey payout.spendPublicKey
    payout.viewPublicKey index

/-- Add the amount of one output when its destination needs no bookkeeping. -/
def addPayoutRow
    (curve : CurveBackend)
    (paysDestination : Nat → PayoutRow → Bool)
    (rewardSum : UInt64)
    (indexed : PayoutRow × Nat) :
    Except P2pPayoutPolicyStatus UInt64 :=
  let (row, index) := indexed
  if !row.native then
    .error .nonNativeAsset
  else if !paysDestination index row then
    .error .destinationMismatch
  else if !row.committed curve then
    .error .amountCommitmentMismatch
  else if row.amount > kMaxU64 - rewardSum then
    .error .rewardSumMismatch
  else
    .ok (rewardSum + row.amount)

/-- The policy for outputs that are checked one by one. -/
def verifyMinerTxRows
    (curve : CurveBackend)
    (json : JsonBackend)
    (minerTxPrefix minerTxTgcJson : List UInt8)
    (blockRewardWithoutFee blockReward : UInt64)
    (paysDestination : ZanoCurveKey → Nat → PayoutRow → Bool) :
    P2pPayoutPolicyResult :=
  match checkPayoutBinding curve json minerTxPrefix minerTxTgcJson
      blockRewardWithoutFee blockReward with
  | .error refusal => refusal
  | .ok result =>
      match readPayoutRows json minerTxPrefix minerTxTgcJson result with
      | .error refusal => refusal
      | .ok (counted, txSecretKey, rows) =>
          match rows.zipIdx.foldlM
              (addPayoutRow curve (paysDestination txSecretKey)) 0 with
          | .error status => { counted with status }
          | .ok rewardSum =>
              let summed := { counted with verifiedReward := rewardSum }
              if rewardSum ≠ blockReward then
                { summed with status := .rewardSumMismatch }
              else
                { summed with status := .verified }

/-- The policy of work that pays one address. -/
def verifyMinerTxAddressPolicy
    (curve : CurveBackend)
    (json : JsonBackend)
    (minerTxPrefix minerTxTgcJson : List UInt8)
    (blockRewardWithoutFee blockReward _txsFee : UInt64)
    (expectedPayout : PayoutPublicKeys) :
    P2pPayoutPolicyResult :=
  verifyMinerTxRows curve json minerTxPrefix minerTxTgcJson
    blockRewardWithoutFee blockReward fun txSecretKey index row =>
      stealthAddressOf curve txSecretKey expectedPayout index =
        some row.output.stealthAddress

/-- The policy of bootstrap work, whose destination is not checked. -/
def verifyMinerTxBootstrapPolicy
    (curve : CurveBackend)
    (json : JsonBackend)
    (minerTxPrefix minerTxTgcJson : List UInt8)
    (blockRewardWithoutFee blockReward _txsFee : UInt64) :
    P2pPayoutPolicyResult :=
  verifyMinerTxRows curve json minerTxPrefix minerTxTgcJson
    blockRewardWithoutFee blockReward fun _ _ _ => true

/-- Check one destination of a plan and add its amount. -/
def checkPlanDestination
    (backend : Backend)
    (seen : List PplnsCoinbaseDestination × UInt64)
    (destination : PplnsCoinbaseDestination) :
    Except P2pPayoutPolicyStatus (List PplnsCoinbaseDestination × UInt64) :=
  let (earlier, expectedSum) := seen
  if destination.amount = 0 ∨
      minerIdFromPayout backend destination.payout ≠ destination.minerId ∨
      destination.amount > kMaxU64 - expectedSum then
    .error .payoutPlanMismatch
  else if earlier.any fun other => other.payout = destination.payout then
    .error .payoutPlanMismatch
  else
    .ok (earlier ++ [destination], expectedSum + destination.amount)

/-- The checks of a plan against the reward of the block. -/
def checkExpectedPlan
    (backend : Backend)
    (blockReward : UInt64)
    (expectedPlan : PplnsCoinbasePlan) :
    Except P2pPayoutPolicyStatus Unit :=
  if expectedPlan.status ≠ .ready ∨
      expectedPlan.rewardAtomic ≠ blockReward ∨
      expectedPlan.destinations = [] ∨
      expectedPlan.destinations.length > kCurrentMinerMaxOutputs then
    .error .payoutPlanMismatch
  else do
    let (_, expectedSum) ← expectedPlan.destinations.foldlM
      (checkPlanDestination backend) ([], 0)
    if expectedSum ≠ expectedPlan.rewardAtomic then
      .error .payoutPlanMismatch
    else
      .ok ()

/-- Compare an output with one destination, keeping the one matched so far. -/
def matchDestination
    (curve : CurveBackend)
    (txSecretKey : ZanoCurveKey)
    (index : Nat)
    (stealthAddress : ZanoCurveKey)
    (matched : Option Nat)
    (indexed : PplnsCoinbaseDestination × Nat) :
    Except P2pPayoutPolicyStatus (Option Nat) :=
  let (destination, position) := indexed
  match stealthAddressOf curve txSecretKey destination.payout index with
  | none => .error .destinationMismatch
  | some expectedStealth =>
      if expectedStealth = stealthAddress then
        if matched.isSome then
          .error .payoutPlanMismatch
        else
          .ok (some position)
      else
        .ok matched

/-- What the outputs examined so far have paid. -/
structure PayoutTally where
  credited : List UInt64
  rewardSum : UInt64
  deriving Repr, DecidableEq

/-- Credit one output to the only destination it pays. -/
def creditPayoutRow
    (curve : CurveBackend)
    (txSecretKey : ZanoCurveKey)
    (destinations : List PplnsCoinbaseDestination)
    (tally : PayoutTally)
    (indexed : PayoutRow × Nat) :
    Except P2pPayoutPolicyStatus PayoutTally :=
  let (row, index) := indexed
  if !row.native then
    .error .nonNativeAsset
  else do
    let matched ← destinations.zipIdx.foldlM
      (matchDestination curve txSecretKey index row.output.stealthAddress)
      none
    match matched with
    | none => .error .destinationMismatch
    | some position =>
        if !row.committed curve then
          .error .amountCommitmentMismatch
        else if row.amount > kMaxU64 - tally.rewardSum ∨
            row.amount > kMaxU64 - tally.credited.getD position 0 then
          .error .rewardSumMismatch
        else
          .ok {
            credited := tally.credited.modify position (· + row.amount)
            rewardSum := tally.rewardSum + row.amount }

/-- Credit the outputs and compare what they pay with the plan. -/
def settlePayoutPlan
    (curve : CurveBackend)
    (blockReward : UInt64)
    (expectedPlan : PplnsCoinbasePlan)
    (result : P2pPayoutPolicyResult)
    (txSecretKey : ZanoCurveKey)
    (rows : List PayoutRow) :
    P2pPayoutPolicyResult :=
  match rows.zipIdx.foldlM
      (creditPayoutRow curve txSecretKey expectedPlan.destinations)
      { credited := expectedPlan.destinations.map fun _ => 0
        rewardSum := 0 } with
  | .error status => { result with status }
  | .ok tally =>
      let summed := { result with verifiedReward := tally.rewardSum }
      if tally.rewardSum ≠ blockReward then
        { summed with status := .rewardSumMismatch }
      else if tally.credited ≠
          expectedPlan.destinations.map PplnsCoinbaseDestination.amount then
        { summed with status := .payoutPlanMismatch }
      else
        { summed with status := .verified }

/-- The policy of work that pays a plan. -/
def verifyMinerTxPayoutPolicy
    (backend : Backend)
    (curve : CurveBackend)
    (json : JsonBackend)
    (minerTxPrefix minerTxTgcJson : List UInt8)
    (blockRewardWithoutFee blockReward _txsFee : UInt64)
    (expectedPlan : PplnsCoinbasePlan) :
    P2pPayoutPolicyResult :=
  match checkPayoutBinding curve json minerTxPrefix minerTxTgcJson
      blockRewardWithoutFee blockReward with
  | .error refusal => refusal
  | .ok result =>
      match checkExpectedPlan backend blockReward expectedPlan with
      | .error status => { result with status }
      | .ok () =>
          match readPayoutRows json minerTxPrefix minerTxTgcJson result with
          | .error refusal => refusal
          | .ok (counted, txSecretKey, rows) =>
              settlePayoutPlan curve blockReward expectedPlan counted
                txSecretKey rows

end ZanoP2pool
