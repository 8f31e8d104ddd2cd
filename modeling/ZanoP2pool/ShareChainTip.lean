import ZanoP2pool.ShareChainRecovery
import ZanoP2pool.ShareChainBranch

namespace ZanoP2pool

open Foundation

/-!
# Tip selection

`better_tip` compares work, then height, then identity, the smaller identity
winning.  The comparison is the strict order of a lexicographic rank, so the
incremental selection of `connect_share` and the full scan of a prune both end
at the entry of greatest rank.
-/

/-- Rank of an entry: work, then height, then reversed identity. -/
def tipRank (entry : ConnectedShare) : ℕ ×ₗ ℕ ×ₗ ℕᵒᵈ :=
  toLex (entry.cumulativeWork.toNat,
    toLex (entry.share.shareHeight.toNat, OrderDual.toDual entry.id.toNat))

/-- The comparison of the source is the strict order of ranks. -/
theorem betterTip_iff
    {candidate current : ConnectedShare} :
    ShareChain.betterTip candidate current = true ↔
      tipRank current < tipRank candidate := by
  simp only [tipRank, Prod.Lex.toLex_lt_toLex, OrderDual.toDual_lt_toDual,
    ShareChain.betterTip]
  by_cases sameWork : candidate.cumulativeWork = current.cumulativeWork
  · by_cases sameHeight :
        candidate.share.shareHeight = current.share.shareHeight
    · simp [sameWork, sameHeight, BitVec.lt_def]
    · have heights :
          candidate.share.shareHeight.toNat ≠
            current.share.shareHeight.toNat := by
        intro same
        exact sameHeight (UInt64.toNat_inj.mp same)
      simp [sameWork, sameHeight, UInt64.lt_iff_toNat_lt]
      omega
  · have works :
        candidate.cumulativeWork.toNat ≠ current.cumulativeWork.toNat := by
      intro same
      exact sameWork (BitVec.eq_of_toNat_eq same)
    simp [sameWork, BitVec.lt_def]
    omega

/-- Entries of equal rank have equal identities. -/
theorem id_eq_of_tipRank_eq
    {first second : ConnectedShare}
    (sameRank : tipRank first = tipRank second) :
    first.id = second.id := by
  simp only [tipRank, EmbeddingLike.apply_eq_iff_eq, Prod.mk.injEq] at sameRank
  exact BitVec.eq_of_toNat_eq sameRank.2.2

/-- The tip names an entry of greatest rank, or nothing is connected. -/
def IsBestTip
    (connected : ShareMap ConnectedShare) :
    Option ShareId → Prop
  | none => ∀ id : ShareId, connected[id]? = none
  | some best =>
      ∃ entry,
        connected[best]? = some entry ∧
        ∀ ⦃id : ShareId⦄ ⦃other : ConnectedShare⦄,
          connected[id]? = some other → tipRank other ≤ tipRank entry

/-- Every entry is stored under its own identity. -/
def SelfKeyed (connected : ShareMap ConnectedShare) : Prop :=
  ∀ ⦃id : ShareId⦄ ⦃entry : ConnectedShare⦄,
    connected[id]? = some entry → entry.id = id

namespace IsBestTip

variable {connected : ShareMap ConnectedShare}

/-- The greatest entry is unique, so two correct tips agree. -/
theorem unique
    (selfKeyed : SelfKeyed connected)
    {first second : Option ShareId}
    (firstBest : IsBestTip connected first)
    (secondBest : IsBestTip connected second) :
    first = second := by
  cases first with
  | none =>
      cases second with
      | none => rfl
      | some best =>
          obtain ⟨entry, found, _⟩ := secondBest
          simp [firstBest best] at found
  | some firstId =>
      obtain ⟨firstEntry, firstFound, firstGreatest⟩ := firstBest
      cases second with
      | none => simp [secondBest firstId] at firstFound
      | some secondId =>
          obtain ⟨secondEntry, secondFound, secondGreatest⟩ := secondBest
          have sameRank :=
            le_antisymm (secondGreatest firstFound)
              (firstGreatest secondFound)
          have sameId := id_eq_of_tipRank_eq sameRank
          rw [selfKeyed firstFound, selfKeyed secondFound] at sameId
          rw [sameId]

end IsBestTip

namespace ShareChain

/-- The tip after an entry has been offered to a correct selection. -/
def offeredTip
    (chain : ShareChain)
    (entry : ConnectedShare) :
    Option ShareId :=
  match chain.bestTip with
  | none => some entry.id
  | some current =>
      if betterTip entry current then some entry.id else chain.bestTipId

/-- Connecting a fresh entry and offering it keeps the selection greatest. -/
theorem offeredTip_isBestTip
    {chain : ShareChain}
    {entry : ConnectedShare}
    (best : IsBestTip chain.connected chain.bestTipId)
    (fresh : chain.connected[entry.id]? = none) :
    IsBestTip (chain.connected.insert entry.id entry)
      (chain.offeredTip entry) := by
  have inserted :
      (chain.connected.insert entry.id entry)[entry.id]? = some entry := by
    simp
  cases selected : chain.bestTipId with
  | none =>
      rw [selected] at best
      simp only [offeredTip, bestTip, selected, Option.bind_none]
      refine ⟨entry, inserted, ?_⟩
      intro id other found
      rcases (getElem?_insert_fresh fresh _).mp found with ⟨_, rfl⟩ | old
      · exact le_refl _
      · simp [best id] at old
  | some current =>
      rw [selected] at best
      obtain ⟨currentEntry, currentFound, greatest⟩ := best
      have bestTipEq : chain.bestTip = some currentEntry := by
        simp [bestTip, selected, find, currentFound]
      cases better : betterTip entry currentEntry with
      | true =>
          simp only [offeredTip, bestTipEq, better, if_true]
          refine ⟨entry, inserted, ?_⟩
          intro id other found
          rcases (getElem?_insert_fresh fresh _).mp found with ⟨_, rfl⟩ | old
          · exact le_refl _
          · exact le_trans (greatest old) (le_of_lt (betterTip_iff.mp better))
      | false =>
          simp only [offeredTip, bestTipEq, better, Bool.false_eq_true,
            if_false, selected]
          refine ⟨currentEntry, ?_, ?_⟩
          · exact (getElem?_insert_fresh fresh _).mpr (.inr currentFound)
          · intro id other found
            rcases (getElem?_insert_fresh fresh _).mp found with ⟨_, rfl⟩ | old
            · rw [← not_lt, ← betterTip_iff]
              simp [better]
            · exact greatest old

/-- With a correct selection, offering a fresh entry never throws. -/
theorem offerBestTip_apply
    {chain : ShareChain}
    {entry : ConnectedShare}
    (best : IsBestTip chain.connected chain.bestTipId)
    (fresh : chain.connected[entry.id]? = none) :
    offerBestTip entry
        { chain with connected := chain.connected.insert entry.id entry } =
      .ok () { chain with
        connected := chain.connected.insert entry.id entry
        bestTipId := chain.offeredTip entry } := by
  cases selected : chain.bestTipId with
  | none =>
      simp [offerBestTip, selected, offeredTip, bestTip]
  | some current =>
      rw [selected] at best
      obtain ⟨currentEntry, currentFound, _⟩ := best
      have stillFound :=
        (getElem?_insert_fresh fresh entry).mpr
          (.inr currentFound)
      have bestTipEq : chain.bestTip = some currentEntry := by
        simp [bestTip, selected, find, currentFound]
      cases better : betterTip entry currentEntry <;>
        simp [offerBestTip, selected, offeredTip, bestTipEq, find,
          stillFound, better]

end ShareChain

end ZanoP2pool
