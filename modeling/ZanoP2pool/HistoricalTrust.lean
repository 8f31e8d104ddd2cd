import ZanoP2pool.Foundation.Zoom
import ZanoP2pool.HistoricalPayout
import ZanoP2pool.HistoricalWork
import ZanoP2pool.P2pMiningContextTrust

namespace ZanoP2pool

open Foundation

/-!
# Trust in historical work

A retrieved proposal becomes trusted for one exact candidate share: it has the
candidate's header, height and difficulty, the local daemon confirms it twice, and
its miner transaction pays the plan of the candidate's parent.
-/

inductive HistoricalTrustStatus where
  | trusted
  | candidateMismatch
  | anchorRejected
  | payoutRejected
  | anchorChangedBeforePromotion
  | promotionRejected
  deriving Repr, DecidableEq

structure HistoricalTrustResult where
  status : HistoricalTrustStatus := .candidateMismatch
  candidateId : ShareId := 0
  initialAnchor : HistoricalAnchorResult := {}
  finalAnchor : HistoricalAnchorResult := {}
  payout : HistoricalPayoutResult := {}
  promotion : P2pMiningContextTrustResult := {}
  deriving Repr, DecidableEq

/-- What a crossing changes: trusted work and the number of source calls. -/
structure CrossingState where
  trustedWork : P2pTrustedWorkRegistry
  calls : Nat

abbrev CrossingM := EStateM Exception CrossingState

/-- Call local sources during a crossing. -/
def onSources {α : Type} (action : QueryM α) : CrossingM α :=
  zoom CrossingState.calls (fun calls state => { state with calls }) action

/-- Use the registry during a crossing. -/
def onRegistry {α : Type} (action : RegistryM α) : CrossingM α :=
  zoom CrossingState.trustedWork
    (fun trustedWork state => { state with trustedWork }) action

/-- Whether a share without a parent may be the first share of a sidechain. -/
def selfBoundRoot (backend : Backend) (share : Share) : Bool :=
  share.shareHeight = 0 ∧ share.version = kShareVersion2 ∧
    share.payout.any fun payout =>
      share.minerId = minerIdFromPayout backend payout

/-- The payout that historical work has to make under a candidate's parent. -/
def historicalPayout
    (backend : Backend)
    (chain : ShareChain)
    (params : SidechainParameters)
    (candidateShare : Share)
    (proposal : P2pMiningContextProposal) :
    Except Exception HistoricalPayoutResult :=
  if isZeroShareId candidateShare.parentId then
    return { status := .bootstrapRoot, parentId := candidateShare.parentId }
  else
    deriveHistoricalPayoutPlan backend chain params candidateShare.parentId
      proposal.networkDifficulty proposal.blockRewardWithoutFee

/-- The anchor of a proposal that was audited field by field. -/
def auditedAnchor (proposal : P2pMiningContextProposal) : P2pMiningAnchor where
  zanoHeight := proposal.zanoHeight
  prevHash := proposal.prevHash
  networkDifficulty := proposal.networkDifficulty
  seed := proposal.seed
  blockRewardWithoutFee := proposal.blockRewardWithoutFee

/-- Cross the proof boundary with audited work. -/
def promoteAudited
    (backends : TrustBackend)
    (candidateShare : Share)
    (peer : P2pHandshake)
    (proposal : P2pMiningContextProposal)
    (plan : PplnsCoinbasePlan) :
    RegistryM P2pMiningContextTrustResult := do
  let envelope ← orThrow
    (makeP2pMiningContextEnvelope backends.json proposal)
  if isZeroShareId candidateShare.parentId then
    promoteBootstrapP2pMiningContext backends peer envelope
      (auditedAnchor proposal)
  else
    promoteP2pMiningContext backends peer envelope (auditedAnchor proposal)
      candidateShare.parentId (.plan plan)

/-- The crossing once the candidate is bound to the proposal. -/
def promoteBoundCandidate
    (backends : TrustBackend)
    (sources : LocalSources)
    (chain : ShareChain)
    (params : SidechainParameters)
    (candidateShare : Share)
    (candidateId : ShareId)
    (peer : P2pHandshake)
    (proposal : P2pMiningContextProposal)
    (proposalHeader : Hash256)
    (observations : List P2pMiningAnchor) :
    CrossingM HistoricalTrustResult := do
  let audit := auditHistoricalLocalAnchor backends.hashing backends.json
    proposal observations
    (fun height => query fun call => sources.canonicalHeader call height)
    (some fun height => query fun call => sources.historicalPow call height)
  let initialAnchor ← onSources audit
  let started : HistoricalTrustResult := { candidateId, initialAnchor }
  if initialAnchor.status ≠ .anchorMatchedUntrusted then
    return { started with status := .anchorRejected }
  else if initialAnchor.miningHeaderHash ≠ proposalHeader then
    return { started with status := .candidateMismatch }
  else
    let payout ← orThrow (historicalPayout backends.hashing chain params
      candidateShare proposal)
    let planned := { started with payout }
    if payout.status ≠ .planDerived ∧ payout.status ≠ .bootstrapRoot then
      return { planned with status := .payoutRejected }
    else
      let finalAnchor ← onSources audit
      let audited := { planned with finalAnchor }
      if finalAnchor.status ≠ .anchorMatchedUntrusted ∨
          finalAnchor.miningHeaderHash ≠ initialAnchor.miningHeaderHash then
        return { audited with status := .anchorChangedBeforePromotion }
      else
        let promotion ← onRegistry (promoteAudited backends candidateShare
          peer proposal payout.plan)
        let promoted := { audited with promotion }
        if promotion.status ≠ .trusted then
          return { promoted with status := .promotionRejected }
        else
          return { promoted with status := .trusted }

def promoteHistoricalMiningContext
    (backends : TrustBackend)
    (sources : LocalSources)
    (chain : ShareChain)
    (params : SidechainParameters)
    (candidateShare : Share)
    (peer : P2pHandshake)
    (proposal : P2pMiningContextProposal)
    (observations : List P2pMiningAnchor) :
    CrossingM HistoricalTrustResult := do
  match shareId backends.hashing candidateShare with
  -- a share that cannot be serialized is refused, not an error
  | .error (.invalidArgument _) => return {}
  | .error thrown => throw thrown
  | .ok candidateId =>
      let proposalHeader ← orThrow (validateP2pMiningContextStructure
        backends.hashing backends.json proposal)
      if candidateShare.zanoHeight ≠ proposal.zanoHeight ∨
          candidateShare.miningHeaderHash ≠ proposalHeader ∨
          candidateShare.networkDifficulty ≠ proposal.networkDifficulty then
        return { candidateId }
      else if isZeroShareId candidateShare.parentId ∧
          !selfBoundRoot backends.hashing candidateShare then
        return { candidateId }
      else
        promoteBoundCandidate backends sources chain params candidateShare
          candidateId peer proposal proposalHeader observations

end ZanoP2pool
