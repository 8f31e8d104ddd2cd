import ZanoP2pool.PplnsCoinbase

namespace ZanoP2pool

open Foundation

/-!
# Payout plans for historical parents

The plan that a share had to pay is derived at its own parent, whatever the tip
is when the share is checked.
-/

namespace ShareChain

def matchesSidechainParameters
    (backend : Backend)
    (chain : ShareChain)
    (params : SidechainParameters) :
    Except Exception Bool :=
  match chain.parameterId with
  | none => return false
  | some parameterId => do
      let id ← sidechainId backend params
      return parameterId = id

end ShareChain

inductive HistoricalPayoutStatus where
  | planDerived
  | parameterMismatch
  | bootstrapHistoryRequired
  | bootstrapRoot
  | parentMissing
  | unverifiedAncestry
  | planUnavailable
  deriving Repr, DecidableEq

structure HistoricalPayoutResult where
  status : HistoricalPayoutStatus := .parentMissing
  parentId : ShareId := 0
  plan : PplnsCoinbasePlan := {}
  deriving Repr, DecidableEq

def deriveHistoricalPayoutPlan
    (backend : Backend)
    (chain : ShareChain)
    (params : SidechainParameters)
    (parentId : ShareId)
    (networkDifficulty : Difficulty128)
    (rewardAtomic : UInt64) :
    Except Exception HistoricalPayoutResult := do
  let matching ← chain.matchesSidechainParameters backend params
  if !matching then
    return { status := .parameterMismatch, parentId }
  else if isZeroShareId parentId then
    return { status := .bootstrapHistoryRequired, parentId }
  else
    match chain.find parentId with
    | none => return { parentId }
    | some parent =>
        if !parent.validatedAncestry then
          return { status := .unverifiedAncestry, parentId }
        else do
          let window ← buildSidechainPplnsWindowAtParent backend chain
            parentId params networkDifficulty
          let plan ← makePplnsCoinbasePlan backend window rewardAtomic params
          return {
            status :=
              if plan.status = .ready then .planDerived else .planUnavailable
            parentId, plan }

end ZanoP2pool
