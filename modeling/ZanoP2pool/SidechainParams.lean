import ZanoP2pool.Share

namespace ZanoP2pool

open Foundation

/-!
# Sidechain consensus parameters

The parameter record of one sidechain, its validation gate (the canonical
serializer) and the identity derived from it.
-/

abbrev SidechainId := Hash256

def kSidechainParameterVersion : UInt8 := 4

/-- The bytes `ZP2SIDV4`. -/
def kSidechainIdDomain : List UInt8 :=
  [0x5a, 0x50, 0x32, 0x53, 0x49, 0x44, 0x56, 0x34]

def kOperatorFeeBasisPointDenominator : UInt64 := 10000

def kCanonicalPplnsWindowShares : UInt64 := 31

/-- The parent Zano network a sidechain belongs to. -/
inductive SidechainParentNetwork where
  | testnet
  | mainnet
  deriving Repr, DecidableEq

namespace SidechainParentNetwork

/-- The byte that tags a parent network on the wire. -/
def tag : SidechainParentNetwork → UInt8
  | .testnet => 1
  | .mainnet => 2

end SidechainParentNetwork

/-- Consensus parameters of one sidechain. -/
structure SidechainParameters where
  parameterVersion : UInt8
  parentNetwork : SidechainParentNetwork
  minimumShareVersion : UInt8
  maximumShareVersion : UInt8
  maxFutureSeconds : UInt64
  maxParentBackstepSeconds : UInt64
  targetShareSeconds : UInt64
  minimumShareDifficulty : UInt64
  difficultyWindowShares : UInt64
  pplnsWindowShares : UInt64
  pplnsMaxNetworkDifficultyMultiplier : UInt64
  operatorFeeBasisPoints : UInt64
  operatorFeePayout : PayoutPublicKeys
  deriving Repr, DecidableEq

/-- Canonical encoding of the parameters, refusing unusable ones. -/
def serializeSidechainParameters
    (params : SidechainParameters) :
    Except Exception (List UInt8) := do
  if params.parameterVersion ≠ kSidechainParameterVersion then
    throw (.invalidArgument "unsupported sidechain parameter version")
  if params.minimumShareVersion = 0 ∨
      params.maximumShareVersion < params.minimumShareVersion then
    throw (.invalidArgument "invalid sidechain share-version range")
  if params.targetShareSeconds = 0 then
    throw (.invalidArgument
      "sidechain target share interval must be nonzero")
  if params.minimumShareDifficulty = 0 then
    throw (.invalidArgument
      "sidechain minimum share difficulty must be nonzero")
  if params.difficultyWindowShares < 2 then
    throw (.invalidArgument
      "sidechain difficulty window must contain at least 2 shares")
  if params.pplnsWindowShares = 0 ∨
      params.pplnsWindowShares > kCanonicalPplnsWindowShares then
    throw (.invalidArgument
      "sidechain PPLNS share window must be between 1 and 31")
  if params.pplnsMaxNetworkDifficultyMultiplier = 0 then
    throw (.invalidArgument
      "sidechain PPLNS work multiplier must be nonzero")
  if params.operatorFeeBasisPoints = 0 ∨
      params.operatorFeeBasisPoints ≥ kOperatorFeeBasisPointDenominator then
    throw (.invalidArgument
      "sidechain operator fee must be between 1 and 9999 basis points")
  if params.operatorFeePayout.spendPublicKey = 0 ∨
      params.operatorFeePayout.viewPublicKey = 0 then
    throw (.invalidArgument
      "sidechain operator fee payout identity must be nonzero")
  return kSidechainIdDomain ++
    [params.parentNetwork.tag, params.minimumShareVersion,
      params.maximumShareVersion] ++
    appendU64Be params.maxFutureSeconds ++
    appendU64Be params.maxParentBackstepSeconds ++
    appendU64Be params.targetShareSeconds ++
    appendU64Be params.minimumShareDifficulty ++
    appendU64Be params.difficultyWindowShares ++
    appendU64Be params.pplnsWindowShares ++
    appendU64Be params.pplnsMaxNetworkDifficultyMultiplier ++
    appendU64Be params.operatorFeeBasisPoints ++
    hashBytes params.operatorFeePayout.spendPublicKey ++
    hashBytes params.operatorFeePayout.viewPublicKey

/-- Parameters the canonical serializer accepts. -/
def SidechainParameters.Accepted (params : SidechainParameters) : Prop :=
  ∃ bytes, serializeSidechainParameters params = .ok bytes

/-- Accepted parameters have a usable payout policy. -/
theorem SidechainParameters.Accepted.payoutPolicy
    {params : SidechainParameters}
    (accepted : params.Accepted) :
    (params.pplnsWindowShares ≠ 0 ∧
      params.pplnsWindowShares ≤ kCanonicalPplnsWindowShares) ∧
    params.pplnsMaxNetworkDifficultyMultiplier ≠ 0 ∧
    (params.operatorFeeBasisPoints ≠ 0 ∧
      params.operatorFeeBasisPoints < kOperatorFeeBasisPointDenominator) ∧
    params.operatorFeePayout.spendPublicKey ≠ 0 ∧
    params.operatorFeePayout.viewPublicKey ≠ 0 := by
  obtain ⟨bytes, serialized⟩ := accepted
  unfold serializeSidechainParameters at serialized
  simp only [bind, Except.bind, throw, throwThe, MonadExceptOf.throw, pure,
    Except.pure] at serialized
  split_ifs at serialized with version shareVersions target minimum window
    shareWindow multiplier fee payout
  simp only [not_or, UInt64.not_lt, ge_iff_le, UInt64.not_le,
    gt_iff_lt] at shareWindow fee payout
  exact ⟨shareWindow, multiplier, fee, payout⟩

/-- The identity of a sidechain: the hash of its canonical parameters. -/
def sidechainId
    (backend : Backend)
    (params : SidechainParameters) :
    Except Exception SidechainId := do
  let bytes ← serializeSidechainParameters params
  return backend.cnFastHash bytes

end ZanoP2pool
