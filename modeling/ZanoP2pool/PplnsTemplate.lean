import ZanoP2pool.MinerTxPrefixes
import ZanoP2pool.MiningHeaderCommitment
import ZanoP2pool.PowTarget
import ZanoP2pool.PplnsCoinbase
import ZanoP2pool.StratumServer
import ZanoP2pool.SubmittedBlock

namespace ZanoP2pool

open Foundation

/-!
# Templates with a PPLNS coinbase

The miner transaction in the template of the daemon is replaced by one that pays the
miners of the sidechain window.  The header of the block and the hashes of its
regular transactions are copied, and the mining work is derived again from the
rebuilt block.  Only the constructor of the transaction itself is code of the Zano
library; it is an argument here.
-/

structure BlockTemplate where
  blockReward : UInt64 := 0
  blockRewardWithoutFee : UInt64 := 0
  blocktemplateBlob : List UInt8 := []
  difficulty : List Char := []
  height : UInt64 := 0
  minerTxTgcJson : List UInt8 := []
  prevHash : List UInt8 := []
  seed : List UInt8 := []
  status : List UInt8 := []
  txsFee : UInt64 := 0
  deriving Repr, DecidableEq

structure PplnsBlockTemplate where
  block : BlockTemplate
  miningWork : MiningHeaderWork
  deriving Repr, DecidableEq

/-- A block with the bytes between its header and its trailer replaced. -/
def spliceMinerTx
    (blockBlob : List UInt8)
    (work : MiningHeaderWork)
    (replacement : List UInt8) :
    List UInt8 :=
  blockBlob.take work.blockHeader.serializedSize ++
    (replacement ++ blockBlob.drop work.txHashes.serializedOffset)

def replaceHf6MinerTx
    (backend : Backend)
    (base : BlockTemplate)
    (minerTxBlobHex : List UInt8) :
    Except Exception PplnsBlockTemplate := do
  if base.blocktemplateBlob.isEmpty then
    throw (.invalidArgument "base block template blob is empty")
  else if minerTxBlobHex.isEmpty then
    throw (.invalidArgument "replacement miner transaction is empty")
  else do
    let baseBytes ← hexToBytes base.blocktemplateBlob
    let replacement ← hexToBytes minerTxBlobHex
    let baseWork ← deriveMiningHeaderWork backend baseBytes
    if baseWork.blockHeader.serializedSize > baseWork.txHashes.serializedOffset ∨
        baseWork.txHashes.serializedOffset > baseBytes.length then
      throw (.logicError "invalid parsed block-template boundaries")
    else do
      let _ ← parseHf6MinerTxPrefix backend replacement
      let rebuilt := spliceMinerTx baseBytes baseWork replacement
      let miningWork ← deriveMiningHeaderWork backend rebuilt
      if miningWork.txHashes.hashes ≠ baseWork.txHashes.hashes then
        throw (.logicError
          "replacement miner transaction changed regular transaction hashes")
      else if miningWork.blockHeader.serialized ≠
          baseWork.blockHeader.serialized then
        throw (.logicError
          "replacement miner transaction changed serialized block header")
      else
        return {
          block := { base with blocktemplateBlob := bytesToHex rebuilt }
          miningWork }

def kZanoFullRewardZoneBytes : Nat := 125000

/-- One output of a transaction that is to be constructed. -/
structure TxDestination where
  payout : PayoutPublicKeys
  amount : UInt64
  deriving Repr, DecidableEq

/-- What the library constructs; the transaction may fail to be serialized. -/
structure ConstructedMinerTx where
  blob : Option (List UInt8)
  generationContextJson : List UInt8
  blockRewardWithoutFee : UInt64
  blockReward : UInt64
  deriving Repr, DecidableEq

/-- The part of the Zano library behind the miner transactions. -/
structure MinerTxLibrary where
  available : Bool
  /-- The cumulative size in the extra fields of a parsed transaction. -/
  cumulativeSize : List UInt8 → Except Exception UInt64
  /-- Height, fee, outputs, extra text and cumulative size. -/
  construct :
    UInt64 → UInt64 → List TxDestination → List UInt8 → UInt64 →
      Except Exception (Option ConstructedMinerTx)

structure ZanoMinerTxResult where
  txBlobHex : List UInt8
  minerTxTgcJson : List UInt8
  blockRewardWithoutFee : UInt64
  blockReward : UInt64
  deriving Repr, DecidableEq

def extractZanoHf6CoinbaseCumulativeSize
    (library : MinerTxLibrary)
    (txBlob : List UInt8) :
    Except Exception UInt64 :=
  if ¬ library.available then
    throw (.runtimeError
      "exact Zano miner-tx parser is not enabled; configure with ZANO_P2POOL_ZANO_SOURCE_DIR")
  else if txBlob.isEmpty then
    throw (.invalidArgument "daemon miner transaction is empty")
  else
    library.cumulativeSize txBlob

/-- The outputs of a plan; a single one is split, as the network wants two. -/
def physicalDestinations
    (destinations : List PplnsCoinbaseDestination) :
    Except Exception (List TxDestination) :=
  match destinations with
  | [only] =>
      if only.amount < 2 then
        throw (.invalidArgument
          "single-recipient PPLNS payout is too small for Zano minimum outputs")
      else
        return [
          { payout := only.payout, amount := only.amount / 2 },
          { payout := only.payout, amount := only.amount - only.amount / 2 }]
  | several =>
      return several.map fun destination =>
        { payout := destination.payout, amount := destination.amount }

def buildZanoHf6PplnsMinerTx
    (library : MinerTxLibrary)
    (height fee expectedBlockReward : UInt64)
    (plan : PplnsCoinbasePlan)
    (extraText : List UInt8)
    (coinbaseBlockCumulativeSize : UInt64) :
    Except Exception ZanoMinerTxResult := do
  if ¬ library.available then
    throw (.runtimeError
      "exact Zano miner-tx builder is not enabled; configure with ZANO_P2POOL_ZANO_SOURCE_DIR")
  else if plan.status ≠ .ready then
    throw (.invalidArgument "PPLNS coinbase plan is not ready")
  else if plan.destinations.isEmpty then
    throw (.invalidArgument "PPLNS coinbase plan has no destinations")
  else if plan.destinations.length > kZanoHf6MaxCoinbaseOutputs then
    throw (.invalidArgument "PPLNS coinbase plan exceeds Zano output limit")
  else if plan.rewardAtomic ≠ expectedBlockReward then
    throw (.invalidArgument
      "PPLNS coinbase reward does not match daemon template reward")
  else do
    let destinations ← physicalDestinations plan.destinations
    if destinations.length > kZanoHf6MaxCoinbaseOutputs then
      throw (.invalidArgument
        "expanded PPLNS coinbase exceeds Zano output limit")
    else do
      match ← library.construct height fee destinations extraText
          coinbaseBlockCumulativeSize with
      | none =>
          throw (.runtimeError
            "Zano construct_miner_tx rejected PPLNS destinations")
      | some tx =>
          if tx.blockReward ≠ expectedBlockReward ∨
              tx.blockRewardWithoutFee ≠ expectedBlockReward then
            throw (.runtimeError
              "Zano canonical miner-tx reward disagrees with daemon template")
          else
            match tx.blob with
            | none =>
                throw (.runtimeError
                  "failed to serialize canonical Zano miner tx")
            | some blob =>
                if tx.generationContextJson.isEmpty then
                  throw (.runtimeError
                    "failed to serialize canonical Zano miner tx generation context")
                else
                  return {
                    txBlobHex := bytesToHex blob
                    minerTxTgcJson := tx.generationContextJson
                    blockRewardWithoutFee := tx.blockRewardWithoutFee
                    blockReward := tx.blockReward }

/-- The window below the best tip, or below the root of an empty chain. -/
def buildSidechainPplnsWindow
    (backend : Backend)
    (chain : ShareChain)
    (params : SidechainParameters)
    (networkDifficulty : Difficulty128) :
    Except Exception PplnsWindow :=
  buildSidechainPplnsWindowAtParent backend chain
    (match chain.bestTip with
      | some tip => tip.id
      | none => 0)
    params networkDifficulty

def pplnsCoinbasePlanStatusName : PplnsCoinbasePlanStatus → String
  | .ready => "ready"
  | .emptyWindow => "empty-window"
  | .incompleteWindow => "incomplete-window"
  | .missingPayoutIdentity => "missing-payout-identity"
  | .tooManyRecipients => "too-many-recipients"
  | .zeroPayout => "zero-payout"
  | .rewardSumMismatch => "reward-sum-mismatch"

inductive PplnsTemplateStatus where
  | ready
  | payoutPlanUnavailable
  | backendUnavailable
  | invalidDaemonTemplate
  | blockTooLarge
  deriving Repr, DecidableEq

/-- Mining work before any was derived. -/
def noMiningWork : MiningHeaderWork where
  blockHeader := { serializedSize := 0, serialized := [] }
  minerTxPrefix :=
    { version := 0, hardforkId := 0, vinCount := 0, extraCount := 0
      voutCount := 0, serializedSize := 0, serialized := [], hash := 0 }
  txHashes := { serializedOffset := 0, serializedSize := 0, hashes := [] }
  txTreeRoot := 0
  hashingBlob := []
  headerHash := 0

structure PplnsTemplateResult where
  status : PplnsTemplateStatus := .invalidDaemonTemplate
  plan : PplnsCoinbasePlan := {}
  block : BlockTemplate := {}
  miningWork : MiningHeaderWork := noMiningWork
  error : String := ""
  deriving Repr, DecidableEq

abbrev TemplateM := EStateM Exception PplnsTemplateResult

/-- Give up with a status and a text. -/
def refuseTemplate (status : PplnsTemplateStatus) (error : String) : TemplateM Unit :=
  modify fun result => { result with status, error }

/-- The part of the construction that may throw. -/
def rebuildPplnsTemplate
    (backend : Backend)
    (library : MinerTxLibrary)
    (daemonTemplate : BlockTemplate)
    (chain : ShareChain)
    (params : SidechainParameters)
    (extraText : List UInt8) :
    TemplateM Unit := do
  let networkDifficulty ← orThrow
    (difficulty128FromDecimal daemonTemplate.difficulty)
  let window ← orThrow
    (buildSidechainPplnsWindow backend chain params networkDifficulty)
  let plan ← orThrow
    (makePplnsCoinbasePlan backend window daemonTemplate.blockReward params)
  modify fun result => { result with plan }
  if plan.status ≠ .ready then
    refuseTemplate .payoutPlanUnavailable
      (pplnsCoinbasePlanStatusName plan.status)
  else if ¬ library.available then
    refuseTemplate .backendUnavailable
      "exact Zano miner-tx builder is unavailable"
  else do
    let daemonBlob ← orThrow (hexToBytes daemonTemplate.blocktemplateBlob)
    let daemonWork ← orThrow (deriveMiningHeaderWork backend daemonBlob)
    if daemonWork.blockHeader.serializedSize >
          daemonWork.txHashes.serializedOffset ∨
        daemonWork.txHashes.serializedOffset > daemonBlob.length then
      refuseTemplate .invalidDaemonTemplate
        "invalid daemon miner-transaction offsets"
    else do
      let cumulativeSize ← orThrow
        (extractZanoHf6CoinbaseCumulativeSize library
          daemonWork.minerTxPrefix.serialized)
      let minerTx ← orThrow
        (buildZanoHf6PplnsMinerTx library daemonTemplate.height
          daemonTemplate.txsFee daemonTemplate.blockReward plan extraText
          cumulativeSize)
      let minerTxBytes ← orThrow (hexToBytes minerTx.txBlobHex)
      let rebuilt := spliceMinerTx daemonBlob daemonWork minerTxBytes
      if rebuilt.length > kZanoFullRewardZoneBytes then
        refuseTemplate .blockTooLarge
          "rebuilt block exceeds the audited full-reward zone"
      else do
        let miningWork ← orThrow (deriveMiningHeaderWork backend rebuilt)
        modify fun result => { result with miningWork }
        if miningWork.blockHeader.serialized ≠
              daemonWork.blockHeader.serialized ∨
            miningWork.txHashes.hashes ≠ daemonWork.txHashes.hashes then
          refuseTemplate .invalidDaemonTemplate
            "PPLNS rebuild changed daemon header or regular transactions"
        else
          modify fun result =>
            { result with
              status := .ready
              block :=
                { result.block with
                  blocktemplateBlob := bytesToHex rebuilt
                  minerTxTgcJson := minerTx.minerTxTgcJson } }

/-- The template to mine on; what is thrown on the way becomes its error. -/
def buildCanonicalPplnsTemplate
    (backend : Backend)
    (library : MinerTxLibrary)
    (daemonTemplate : BlockTemplate)
    (chain : ShareChain)
    (params : SidechainParameters)
    (extraText : List UInt8) :
    PplnsTemplateResult :=
  match rebuildPplnsTemplate backend library daemonTemplate chain params
      extraText { block := daemonTemplate } with
  | .ok _ result => result
  | .error thrown result =>
      { result with status := .invalidDaemonTemplate, error := thrown.what }

section Splices

variable {backend : Backend} {bytes other rest later : List UInt8}

theorem readCount_eq_ok
    {count : Nat} :
    readCount bytes = .ok (count, rest) ↔
      count < 2 ^ 64 ∧ bytes = varint count ++ rest :=
  takeShortest_takeVarint_eq_ok

/-- The proofs of a layout are passed over, whatever follows them. -/
theorem ProofLayout.read
    {proofs range balance : List UInt8}
    {counts : Nat × Nat × Nat × Nat × Nat}
    (layout : ProofLayout proofs range balance counts)
    (other : List UInt8) :
    skipHf6Proofs (proofs ++ other) = .ok ((), other) := by
  have count {value : Nat} (fits : value < 2 ^ 64) (after : List UInt8) :
      expectRead readCount value (varint value ++ after) = .ok ((), after) :=
    expectRead_eq_ok.mpr (readCount_eq_ok.mpr ⟨fits, rfl⟩)
  have byte (value : UInt8) (after : List UInt8) :
      MiningHeader.readU8 (value :: after) = .ok (value, after) :=
    takeByte_eq_ok.mpr rfl
  obtain ⟨left, right, outputs, y0s, y1s⟩ := counts
  have shape :
      proofs ++ other =
        varint 0 ++ (varint 0 ++ (varint 2 ++
          (47 :: (range ++ (48 :: (balance ++ other)))))) := by
    rw [layout.whole]
    simp [varint, varintGroups]
  rw [skipHf6Proofs_eq, shape, cursor_bind_of_ok (count (by norm_num) _),
    cursor_bind_of_ok (count (by norm_num) _),
    cursor_bind_of_ok (count (by norm_num) _),
    cursor_bind_of_ok (expectRead_eq_ok.mpr (byte _ _)),
    cursor_bind_of_ok (layout.rangeRead _)]
  simp only
  rw [if_neg layout.consistent, cursor_bind_of_ok (byte _ _),
    if_neg (by decide)]
  exact miningHeader_skip_eq_ok.mpr ⟨balance, layout.balanceLength, rfl⟩

/-- Whole digests are determined by the hashes in them. -/
theorem splitHashes_injective
    {count : Nat}
    (length : bytes.length = 32 * count)
    (otherLength : other.length = 32 * count)
    (same : splitHashes count bytes = splitHashes count other) :
    bytes = other := by
  induction count generalizing bytes other with
  | zero =>
      rw [List.length_eq_zero_iff.mp length,
        List.length_eq_zero_iff.mp otherLength]
  | succ count inductionHypothesis =>
      obtain ⟨first, remaining⟩ := List.cons.inj same
      have digest {bytes : List UInt8} (sized : bytes.length = 32 * (count + 1)) :
          bigEndian 32 (keyOfBytes (bytes.take 32)).toNat = bytes.take 32 :=
        bigEndian_keyOfBytes (by rw [List.length_take]; omega)
      have heads : bytes.take 32 = other.take 32 := by
        rw [← digest length, ← digest otherLength]
        exact congrArg (fun hash : Hash256 => bigEndian 32 hash.toNat) first
      have tails : bytes.drop 32 = other.drop 32 := by
        refine inductionHypothesis ?_ ?_ remaining
        · rw [List.length_drop]
          omega
        · rw [List.length_drop]
          omega
      rw [← List.take_append_drop 32 bytes, heads, tails,
        List.take_append_drop]

/-- The trailers of blocks with the same hashes are the same. -/
theorem BlockLayout.sameTrailer
    {header minerTxPrefix proofs trailer : List UInt8}
    {otherHeader otherPrefix otherProofs otherTrailer : List UInt8}
    {work otherWork : MiningHeaderWork}
    (layout :
      BlockLayout backend bytes work header minerTxPrefix proofs trailer)
    (otherLayout :
      BlockLayout backend other otherWork otherHeader otherPrefix otherProofs
        otherTrailer)
    (same : otherWork.txHashes.hashes = work.txHashes.hashes) :
    otherTrailer = trailer := by
  obtain ⟨digests, read, length, split⟩ := layout.trailerRead
  obtain ⟨otherDigests, otherRead, otherLength, otherSplit⟩ :=
    otherLayout.trailerRead
  rw [same] at otherRead otherLength otherSplit
  have sameDigests : otherDigests = digests :=
    splitHashes_injective otherLength length (otherSplit.symm.trans split)
  rw [(readCount_eq_ok.mp read).2, (readCount_eq_ok.mp otherRead).2,
    sameDigests]

/-- The headers that open the same bytes are the same. -/
theorem blockHeader_unique
    {header otherHeader : List UInt8}
    (read : ∀ after, blockHeaderFields (header ++ after) = .ok ((), after))
    (otherRead :
      ∀ after, blockHeaderFields (otherHeader ++ after) = .ok ((), after))
    (same : header ++ rest = otherHeader ++ later) :
    otherHeader = header ∧ later = rest := by
  have first := read rest
  rw [same, otherRead later] at first
  have sameRest : later = rest := congrArg Prod.snd (Except.ok.inj first)
  subst sameRest
  exact ⟨(List.append_cancel_right same).symm, rfl⟩

/-- A block in which exactly the miner transaction was replaced. -/
structure Spliced
    (backend : Backend)
    (base : List UInt8)
    (baseWork : MiningHeaderWork)
    (replacement rebuilt : List UInt8)
    (work : MiningHeaderWork) :
    Prop where
  derived : deriveMiningHeaderWork backend rebuilt = .ok work
  parts :
    ∃ header replaced trailer,
      header.length = baseWork.blockHeader.serializedSize ∧
      trailer.length = baseWork.txHashes.serializedSize ∧
      base = header ++ (replaced ++ trailer) ∧
      rebuilt = header ++ (replacement ++ trailer)
  header : work.blockHeader = baseWork.blockHeader
  offset :
    work.txHashes.serializedOffset =
      baseWork.blockHeader.serializedSize + replacement.length
  hashes : work.txHashes.hashes = baseWork.txHashes.hashes
  prefixParsed :
    parseHf6MinerTxPrefix backend replacement = .ok work.minerTxPrefix
  /-- The replacement is a prefix and the proofs behind it, and no more. -/
  complete :
    ∃ proofs,
      replacement = work.minerTxPrefix.serialized ++ proofs ∧
        ∀ after, skipHf6Proofs (proofs ++ after) = .ok ((), after)

/-- Splicing that keeps the hashes replaces exactly the miner transaction. -/
theorem spliceMinerTx_exact
    {base replacement : List UInt8}
    {baseWork work : MiningHeaderWork}
    (baseDerived : deriveMiningHeaderWork backend base = .ok baseWork)
    (derived :
      deriveMiningHeaderWork backend (spliceMinerTx base baseWork replacement) =
        .ok work)
    (hashes : work.txHashes.hashes = baseWork.txHashes.hashes) :
    Spliced backend base baseWork replacement
      (spliceMinerTx base baseWork replacement) work := by
  obtain ⟨header, minerTxPrefix, proofs, trailer, layout⟩ :=
    deriveMiningHeaderWork_layout baseDerived
  obtain ⟨newHeader, newPrefix, newProofs, newTrailer, newLayout⟩ :=
    deriveMiningHeaderWork_layout derived
  have cut :
      base = (header ++ (minerTxPrefix ++ proofs)) ++ trailer := by
    rw [layout.whole]
    simp only [List.append_assoc]
  have spliced :
      spliceMinerTx base baseWork replacement =
        header ++ (replacement ++ trailer) := by
    unfold spliceMinerTx
    rw [layout.headerSize, layout.trailerOffset]
    have front : base.take header.length = header := by
      rw [layout.whole, List.take_left]
    have back :
        base.drop (header.length + minerTxPrefix.length + proofs.length) =
          trailer := by
      rw [cut, List.drop_left' (by simp only [List.length_append]; omega)]
    rw [front, back]
  obtain ⟨sameHeader, sameRest⟩ :=
    blockHeader_unique layout.headerRead newLayout.headerRead
      (spliced.symm.trans newLayout.whole)
  have sameTrailer := layout.sameTrailer newLayout hashes
  subst sameHeader sameTrailer
  have whole : replacement = newPrefix ++ newProofs := by
    rw [← List.append_assoc] at sameRest
    exact (List.append_cancel_right sameRest).symm
  obtain ⟨range, balance, counts, proofLayout⟩ := newLayout.proofLayout
  refine ⟨derived, ⟨newHeader, minerTxPrefix ++ proofs, newTrailer,
    layout.headerSize.symm, layout.trailerSize.symm, ?_, spliced⟩, ?_, ?_, hashes,
    ?_, ⟨newProofs, ?_, proofLayout.read⟩⟩
  · rw [layout.whole, List.append_assoc]
  · have sizes := newLayout.headerSize.trans layout.headerSize.symm
    have contents := newLayout.headerBytes.trans layout.headerBytes.symm
    cases newWork : work.blockHeader with
    | mk size content =>
        cases oldWork : baseWork.blockHeader with
        | mk oldSize oldContent =>
            rw [newWork, oldWork] at sizes contents
            simp only at sizes contents
            rw [sizes, contents]
  · rw [newLayout.trailerOffset, layout.headerSize, whole, List.length_append]
    omega
  · rw [whole]
    exact newLayout.prefixRead newProofs
  · rw [newLayout.prefixBytes]
    exact whole

end Splices

/-- The block of a result is that of a template with its miner transaction replaced. -/
structure Respliced
    (backend : Backend)
    (template replaced : BlockTemplate)
    (minerTxHex : List UInt8)
    (work : MiningHeaderWork) :
    Prop where
  spliced :
    ∃ base baseWork replacement rebuilt,
      hexToBytes template.blocktemplateBlob = .ok base ∧
      deriveMiningHeaderWork backend base = .ok baseWork ∧
      hexToBytes minerTxHex = .ok replacement ∧
      hexToBytes replaced.blocktemplateBlob = .ok rebuilt ∧
      Spliced backend base baseWork replacement rebuilt work
  rest :
    replaced =
      { template with
        blocktemplateBlob := replaced.blocktemplateBlob
        minerTxTgcJson := replaced.minerTxTgcJson }

section Templates

variable {backend : Backend} {library : MinerTxLibrary}
variable {daemonTemplate : BlockTemplate} {chain : ShareChain}
variable {params : SidechainParameters} {extraText : List UInt8}

theorem replaceHf6MinerTx_spliced
    {base : BlockTemplate}
    {minerTxBlobHex : List UInt8}
    {result : PplnsBlockTemplate}
    (replaced : replaceHf6MinerTx backend base minerTxBlobHex = .ok result) :
    Respliced backend base result.block minerTxBlobHex result.miningWork ∧
      result.block.minerTxTgcJson = base.minerTxTgcJson := by
  unfold replaceHf6MinerTx at replaced
  split_ifs at replaced
  obtain ⟨baseBytes, baseRead, replaced⟩ := except_bind_eq_ok.mp replaced
  obtain ⟨replacement, read, replaced⟩ := except_bind_eq_ok.mp replaced
  obtain ⟨baseWork, baseDerived, replaced⟩ := except_bind_eq_ok.mp replaced
  split_ifs at replaced
  obtain ⟨_, _, replaced⟩ := except_bind_eq_ok.mp replaced
  obtain ⟨work, derived, replaced⟩ := except_bind_eq_ok.mp replaced
  split_ifs at replaced with hashes header
  all_goals try cases replaced
  have spliced :=
    spliceMinerTx_exact baseDerived derived (not_not.mp hashes)
  exact ⟨⟨⟨baseBytes, baseWork, replacement, _, baseRead, baseDerived, read,
    hexToBytes_bytesToHex _, spliced⟩, rfl⟩, rfl⟩

/-- How the construction of a template can end. -/
inductive RebuildOutcome
    (backend : Backend)
    (library : MinerTxLibrary)
    (daemonTemplate : BlockTemplate)
    (extraText : List UInt8) :
    EStateM.Result Exception PplnsTemplateResult Unit → Prop where
  | threw
      {thrown : Exception}
      {result : PplnsTemplateResult} :
      result.block = daemonTemplate →
      RebuildOutcome backend library daemonTemplate extraText
        (.error thrown result)
  | refused
      {result : PplnsTemplateResult} :
      result.block = daemonTemplate →
      result.status ≠ .ready →
      RebuildOutcome backend library daemonTemplate extraText (.ok () result)
  | rebuilt
      {result : PplnsTemplateResult}
      {minerTx : ZanoMinerTxResult}
      {cumulativeSize : UInt64} :
      result.status = .ready →
      result.plan.status = .ready →
      buildZanoHf6PplnsMinerTx library daemonTemplate.height
          daemonTemplate.txsFee daemonTemplate.blockReward result.plan extraText
          cumulativeSize =
        .ok minerTx →
      Respliced backend daemonTemplate result.block minerTx.txBlobHex
        result.miningWork →
      result.block.minerTxTgcJson = minerTx.minerTxTgcJson →
      (∃ blob,
        hexToBytes result.block.blocktemplateBlob = .ok blob ∧
          blob.length ≤ kZanoFullRewardZoneBytes) →
      RebuildOutcome backend library daemonTemplate extraText (.ok () result)

theorem RebuildOutcome.refuse
    {result : PplnsTemplateResult}
    (status : PplnsTemplateStatus)
    (error : String)
    (kept : result.block = daemonTemplate)
    (notReady : status ≠ .ready) :
    RebuildOutcome backend library daemonTemplate extraText
      (refuseTemplate status error result) :=
  .refused kept notReady

theorem rebuildPplnsTemplate_outcome
    (backend : Backend)
    (library : MinerTxLibrary)
    (daemonTemplate : BlockTemplate)
    (chain : ShareChain)
    (params : SidechainParameters)
    (extraText : List UInt8) :
    RebuildOutcome backend library daemonTemplate extraText
      (rebuildPplnsTemplate backend library daemonTemplate chain params
        extraText { block := daemonTemplate }) := by
  unfold rebuildPplnsTemplate
  cases difficulty128FromDecimal daemonTemplate.difficulty with
  | error thrown => exact .threw rfl
  | ok networkDifficulty =>
  rw [bind_of_ok (orThrow_ok _ _)]
  cases buildSidechainPplnsWindow backend chain params networkDifficulty with
  | error thrown => exact .threw rfl
  | ok window =>
  rw [bind_of_ok (orThrow_ok _ _)]
  cases makePplnsCoinbasePlan backend window daemonTemplate.blockReward params with
  | error thrown => exact .threw rfl
  | ok plan =>
  rw [bind_of_ok (orThrow_ok _ _), modify_bind_apply]
  by_cases planned : plan.status = .ready
  swap
  · rw [if_pos planned]
    exact .refuse .payoutPlanUnavailable _ rfl (by decide)
  rw [if_neg (not_not.mpr planned)]
  by_cases available : library.available = true
  swap
  · rw [if_pos available]
    exact .refuse .backendUnavailable _ rfl (by decide)
  rw [if_neg (not_not.mpr available)]
  cases blobRead : hexToBytes daemonTemplate.blocktemplateBlob with
  | error thrown => exact .threw rfl
  | ok daemonBlob =>
  rw [bind_of_ok (orThrow_ok _ _)]
  cases daemonDerived : deriveMiningHeaderWork backend daemonBlob with
  | error thrown => exact .threw rfl
  | ok daemonWork =>
  rw [bind_of_ok (orThrow_ok _ _)]
  by_cases misplaced :
      daemonWork.blockHeader.serializedSize >
          daemonWork.txHashes.serializedOffset ∨
        daemonWork.txHashes.serializedOffset > daemonBlob.length
  · rw [if_pos misplaced]
    exact .refuse .invalidDaemonTemplate _ rfl (by decide)
  rw [if_neg misplaced]
  cases extractZanoHf6CoinbaseCumulativeSize library
      daemonWork.minerTxPrefix.serialized with
  | error thrown => exact .threw rfl
  | ok cumulativeSize =>
  rw [bind_of_ok (orThrow_ok _ _)]
  cases built : buildZanoHf6PplnsMinerTx library daemonTemplate.height
      daemonTemplate.txsFee daemonTemplate.blockReward plan extraText
      cumulativeSize with
  | error thrown => exact .threw rfl
  | ok minerTx =>
  rw [bind_of_ok (orThrow_ok _ _)]
  cases txRead : hexToBytes minerTx.txBlobHex with
  | error thrown => exact .threw rfl
  | ok minerTxBytes =>
  rw [bind_of_ok (orThrow_ok _ _)]
  by_cases large :
      (spliceMinerTx daemonBlob daemonWork minerTxBytes).length >
        kZanoFullRewardZoneBytes
  · rw [if_pos large]
    exact .refuse .blockTooLarge _ rfl (by decide)
  rw [if_neg large]
  cases derived : deriveMiningHeaderWork backend
      (spliceMinerTx daemonBlob daemonWork minerTxBytes) with
  | error thrown => exact .threw rfl
  | ok miningWork =>
  rw [bind_of_ok (orThrow_ok _ _), modify_bind_apply]
  by_cases changed :
      miningWork.blockHeader.serialized ≠ daemonWork.blockHeader.serialized ∨
        miningWork.txHashes.hashes ≠ daemonWork.txHashes.hashes
  · rw [if_pos changed]
    exact .refuse .invalidDaemonTemplate _ rfl (by decide)
  rw [if_neg changed]
  rw [not_or, not_not, not_not] at changed
  have spliced := spliceMinerTx_exact daemonDerived derived changed.2
  exact .rebuilt rfl planned built
    ⟨⟨daemonBlob, daemonWork, minerTxBytes, _, blobRead, daemonDerived, txRead,
      hexToBytes_bytesToHex _, spliced⟩, rfl⟩
    rfl ⟨_, hexToBytes_bytesToHex _, not_lt.mp large⟩

end Templates

/--
Replacing the miner transaction of a template, or building one for the sidechain
window, puts exactly one complete transaction between the header and the hashes of
the base block; a template that is not ready is the template of the daemon.
-/
theorem coinbaseSplice_exact
    (backend : Backend) :
    (∀ base minerTxBlobHex result,
      replaceHf6MinerTx backend base minerTxBlobHex = .ok result →
        Respliced backend base result.block minerTxBlobHex result.miningWork) ∧
    ∀ library daemonTemplate chain params extraText,
      let result :=
        buildCanonicalPplnsTemplate backend library daemonTemplate chain params
          extraText
      (result.status = .ready →
        ∃ minerTx cumulativeSize,
          buildZanoHf6PplnsMinerTx library daemonTemplate.height
              daemonTemplate.txsFee daemonTemplate.blockReward result.plan
              extraText cumulativeSize =
            .ok minerTx ∧
          Respliced backend daemonTemplate result.block minerTx.txBlobHex
            result.miningWork) ∧
        (result.status ≠ .ready → result.block = daemonTemplate) := by
  refine ⟨fun base minerTxBlobHex result replaced =>
    (replaceHf6MinerTx_spliced replaced).1, ?_⟩
  intro library daemonTemplate chain params extraText
  have outcome :=
    rebuildPplnsTemplate_outcome backend library daemonTemplate chain params
      extraText
  unfold buildCanonicalPplnsTemplate
  cases ended :
      rebuildPplnsTemplate backend library daemonTemplate chain params extraText
        { block := daemonTemplate } with
  | error thrown result =>
      rw [ended] at outcome
      cases outcome with
      | threw kept =>
          refine ⟨?_, fun _ => kept⟩
          intro ready
          cases ready
  | ok value result =>
      rw [ended] at outcome
      cases outcome with
      | refused kept notReady =>
          exact ⟨fun ready => absurd ready notReady, fun _ => kept⟩
      | @rebuilt _ minerTx cumulativeSize ready _ built respliced _ _ =>
          exact ⟨fun _ => ⟨minerTx, cumulativeSize, built, respliced⟩,
            fun notReady => absurd ready notReady⟩

/-- A miner transaction with an extra field and no outputs. -/
def sampleReplacement : List UInt8 :=
  [4, 0, 1, 14, 9, 0, 6] ++ sampleProofs

/-- The sample block takes it in place of its own. -/
theorem coinbaseSplice_exact_sample :
    ∃ result,
      replaceHf6MinerTx spellingBackend
          { blocktemplateBlob := bytesToHex (sampleBlock 3) }
          (bytesToHex sampleReplacement) =
        .ok result ∧
      Respliced spellingBackend
        { blocktemplateBlob := bytesToHex (sampleBlock 3) } result.block
        (bytesToHex sampleReplacement) result.miningWork := by
  have succeeded :
      (replaceHf6MinerTx spellingBackend
        { blocktemplateBlob := bytesToHex (sampleBlock 3) }
        (bytesToHex sampleReplacement)).toOption.isSome = true := by
    decide +kernel
  cases replaced :
      replaceHf6MinerTx spellingBackend
        { blocktemplateBlob := bytesToHex (sampleBlock 3) }
        (bytesToHex sampleReplacement) with
  | error thrown =>
      rw [replaced] at succeeded
      cases succeeded
  | ok result =>
      exact ⟨result, rfl,
        (coinbaseSplice_exact spellingBackend).1 _ _ _ replaced⟩

end ZanoP2pool
