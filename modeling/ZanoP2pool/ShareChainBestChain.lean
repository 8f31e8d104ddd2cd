import ZanoP2pool.ShareChainInvariants

namespace ZanoP2pool

open Foundation

/-!
# The best chain

A share is on the best chain when the walk along the parent links from the best
tip meets it, and stale when it is connected elsewhere.  On every chain that
calls reach the walk visits exactly the ancestors of the tip, one share at each
height, and these are the shares whose removal takes the tip along.
-/

namespace ShareChain

/--
The loop of `is_on_best_chain`.  The budget bounds the links it follows; a
walk never follows as many as there are connected shares.
-/
def walkMeets
    (chain : ShareChain)
    (id : ShareId) :
    Nat → Option ConnectedShare → Bool
  | _, none => false
  | 0, some _ => false
  | budget + 1, some current =>
      if current.id == id then
        true
      else if isZeroShareId current.share.parentId then
        false
      else
        chain.walkMeets id budget (chain.find current.share.parentId)

def isOnBestChain (chain : ShareChain) (id : ShareId) : Bool :=
  chain.walkMeets id chain.connected.size chain.bestTip

def isStale (chain : ShareChain) (id : ShareId) : Bool :=
  chain.contains id && !chain.isOnBestChain id

variable {backend : Backend} {chain : ShareChain}

/-- The shares from one of height `h` down to its root are at least `h + 1`. -/
theorem Sound.path
    (sound : Sound backend chain)
    {id : ShareId}
    {entry : ConnectedShare}
    (found : chain.connected[id]? = some entry) :
    ∃ ids : List ShareId,
      ids.length = entry.share.shareHeight.toNat + 1 ∧
      ids.Nodup ∧
      ∀ member ∈ ids, ∃ reached,
        chain.connected[member]? = some reached ∧
        reached.share.shareHeight.toNat ≤
          entry.share.shareHeight.toNat := by
  -- one more share for each link, at a height the ones below do not have
  induction height : entry.share.shareHeight.toNat generalizing id entry with
  | zero =>
      refine ⟨[id], rfl, List.nodup_singleton id, ?_⟩
      intro member inPath
      obtain rfl := List.mem_singleton.mp inPath
      exact ⟨entry, found, le_of_eq height⟩
  | succ below inductionHypothesis =>
      have nonzero : entry.share.parentId ≠ 0 := by
        intro zero
        have atRoot :=
          (structuralRejectReason_eq_none (sound.structural found)).2.mp zero
        rw [atRoot] at height
        exact absurd height (by simp)
      obtain ⟨parent, parentFound, above⟩ := sound.heightLinked found nonzero
      obtain ⟨ids, length, distinct, reached⟩ :=
        inductionHypothesis parentFound (by omega)
      refine ⟨id :: ids, by simp [length], ?_, ?_⟩
      · refine List.nodup_cons.mpr ⟨?_, distinct⟩
        intro again
        obtain ⟨same, sameFound, notAbove⟩ := reached id again
        rw [found] at sameFound
        cases sameFound
        omega
      · intro member inPath
        rcases List.mem_cons.mp inPath with rfl | inBelow
        · exact ⟨entry, found, le_of_eq height⟩
        · obtain ⟨other, otherFound, notAbove⟩ := reached member inBelow
          exact ⟨other, otherFound, by omega⟩

/-- A connected share stands below the number of connected shares. -/
theorem Sound.height_lt_size
    (sound : Sound backend chain)
    {id : ShareId}
    {entry : ConnectedShare}
    (found : chain.connected[id]? = some entry) :
    entry.share.shareHeight.toNat < chain.connected.size := by
  obtain ⟨ids, length, distinct, reached⟩ := sound.path found
  have bounded :=
    length_le_of_connected distinct fun member inPath =>
      (reached member inPath).imp fun _ present => present.1
  omega

/-- The walk from a connected share meets its ancestors and itself. -/
theorem Sound.walkMeets_iff
    (sound : Sound backend chain)
    {id currentId : ShareId}
    {current : ConnectedShare}
    {budget : Nat}
    (found : chain.connected[currentId]? = some current)
    (enough : current.share.shareHeight.toNat < budget) :
    chain.walkMeets id budget (some current) = true ↔
      Descends chain.connected id currentId := by
  induction budget generalizing currentId current with
  | zero => exact absurd enough (Nat.not_lt_zero _)
  | succ budget inductionHypothesis =>
      have keyed := (sound.keyed found).1
      rw [walkMeets]
      by_cases here : current.id = id
      · subst here
        rw [if_pos (beq_self_eq_true _)]
        refine iff_of_true rfl ?_
        rw [← keyed] at found ⊢
        exact .self found
      · rw [if_neg (by simpa using here)]
        by_cases atRoot : current.share.parentId = 0
        · rw [if_pos (isZeroShareId_iff.mpr atRoot)]
          refine iff_of_false (by simp) ?_
          intro descends
          cases descends with
          | self _ => exact here keyed
          | child again nonzero _ =>
              rw [found] at again
              cases again
              exact nonzero atRoot
        · rw [if_neg (by simpa [isZeroShareId_iff] using atRoot)]
          obtain ⟨parent, parentFound, above⟩ :=
            sound.heightLinked found atRoot
          rw [find, parentFound,
            inductionHypothesis parentFound (by omega)]
          constructor
          · intro descends
            exact .child found atRoot descends
          · intro descends
            cases descends with
            | self _ => exact absurd keyed here
            | child again _ below =>
                rw [found] at again
                cases again
                exact below

/-- The best chain consists of the best tip and its ancestors. -/
theorem Sound.isOnBestChain_iff
    (sound : Sound backend chain)
    (id : ShareId) :
    chain.isOnBestChain id = true ↔
      ∃ tip,
        chain.bestTipId = some tip ∧ Descends chain.connected id tip := by
  unfold isOnBestChain ShareChain.bestTip
  have best := sound.bestTip
  cases selected : chain.bestTipId with
  | none => simp [walkMeets]
  | some tip =>
      rw [selected] at best
      obtain ⟨entry, found, _⟩ := best
      rw [Option.bind_some, find, found,
        sound.walkMeets_iff found (sound.height_lt_size found)]
      constructor
      · intro descends
        exact ⟨tip, rfl, descends⟩
      · rintro ⟨_, ⟨⟩, descends⟩
        exact descends

/-- An ancestor stands at most as high, and as high only as itself. -/
theorem Descends.height_le
    (linked : HeightLinked chain.connected)
    {ancestor id : ShareId}
    (descends : Descends chain.connected ancestor id)
    {entry : ConnectedShare}
    (found : chain.connected[id]? = some entry) :
    ∃ above,
      chain.connected[ancestor]? = some above ∧
      above.share.shareHeight.toNat ≤ entry.share.shareHeight.toNat ∧
      (above.share.shareHeight.toNat = entry.share.shareHeight.toNat →
        ancestor = id) := by
  induction descends generalizing entry with
  | self _ => exact ⟨entry, found, le_refl _, fun _ => rfl⟩
  | child again nonzero _ inductionHypothesis =>
      rw [found] at again
      cases again
      obtain ⟨parent, parentFound, step⟩ := linked found nonzero
      obtain ⟨above, aboveFound, notAbove, _⟩ :=
        inductionHypothesis parentFound
      exact ⟨above, aboveFound, by omega, fun same => by omega⟩

/-- Two ancestors of one share at one height are the same share. -/
theorem Descends.unique
    (linked : HeightLinked chain.connected)
    {first second id : ShareId}
    {firstEntry secondEntry : ConnectedShare}
    (firstDescends : Descends chain.connected first id)
    (secondDescends : Descends chain.connected second id)
    (firstFound : chain.connected[first]? = some firstEntry)
    (secondFound : chain.connected[second]? = some secondEntry)
    (sameHeight :
      firstEntry.share.shareHeight.toNat =
        secondEntry.share.shareHeight.toNat) :
    first = second := by
  induction firstDescends with
  | self _ =>
      obtain ⟨above, aboveFound, _, same⟩ :=
        secondDescends.height_le linked firstFound
      rw [secondFound] at aboveFound
      cases aboveFound
      exact (same sameHeight.symm).symm
  | child found nonzero deeper inductionHypothesis =>
      cases secondDescends with
      | self _ =>
          obtain ⟨above, aboveFound, _, same⟩ :=
            (Descends.child found nonzero deeper).height_le linked
              secondFound
          rw [firstFound] at aboveFound
          cases aboveFound
          exact same sameHeight
      | child again _ secondDeeper =>
          rw [found] at again
          cases again
          exact inductionHypothesis secondDeeper

/-- A share has an ancestor at every height up to its own. -/
theorem Sound.ancestor_at
    (sound : Sound backend chain)
    {id : ShareId}
    {entry : ConnectedShare}
    (found : chain.connected[id]? = some entry)
    {height : Nat}
    (notAbove : height ≤ entry.share.shareHeight.toNat) :
    ∃ ancestor above,
      Descends chain.connected ancestor id ∧
      chain.connected[ancestor]? = some above ∧
      above.share.shareHeight.toNat = height := by
  induction steps : entry.share.shareHeight.toNat - height
      generalizing id entry with
  | zero => exact ⟨id, entry, .self found, found, by omega⟩
  | succ steps inductionHypothesis =>
      have nonzero : entry.share.parentId ≠ 0 := by
        intro zero
        have atRoot :=
          (structuralRejectReason_eq_none (sound.structural found)).2.mp zero
        have bottom : entry.share.shareHeight.toNat = 0 := by
          rw [atRoot]
          rfl
        omega
      obtain ⟨parent, parentFound, above⟩ := sound.heightLinked found nonzero
      obtain ⟨ancestor, reached, descends, reachedFound, atHeight⟩ :=
        inductionHypothesis parentFound (by omega) (by omega)
      exact ⟨ancestor, reached, .child found nonzero descends, reachedFound,
        atHeight⟩

/-- What the walk along the best chain tells about a chain between calls. -/
structure BestChainLaws (chain : ShareChain) : Prop where
  ancestors :
    ∀ id,
      chain.isOnBestChain id = true ↔
        ∃ tip,
          chain.bestTipId = some tip ∧ Descends chain.connected id tip
  stale :
    ∀ id,
      chain.isStale id = true ↔
        chain.contains id = true ∧
          ∀ tip, chain.bestTipId = some tip →
            ¬ Descends chain.connected id tip
  onePerHeight :
    ∀ tip, chain.bestTip = some tip →
      ∀ height ≤ tip.share.shareHeight.toNat,
        ∃! id, chain.isOnBestChain id = true ∧
          ∃ entry,
            chain.connected[id]? = some entry ∧
            entry.share.shareHeight.toNat = height
  prunedTip :
    ∀ id tip, chain.bestTipId = some tip → chain.contains id = true →
      ∃ removed pruned,
        pruneConnectedSubtreeIds id chain = .ok removed pruned ∧
        (tip ∈ removed ↔ chain.isOnBestChain id = true)

/-- The laws of the best chain rest on the invariant of the chain alone. -/
theorem Sound.bestChainLaws
    (sound : Sound backend chain) :
    BestChainLaws chain := by
  constructor
  case ancestors => exact sound.isOnBestChain_iff
  case stale =>
    intro id
    rw [isStale, Bool.and_eq_true, Bool.not_eq_true', ← Bool.not_eq_true,
      sound.isOnBestChain_iff id]
    simp only [not_exists, not_and]
  case onePerHeight =>
    intro tip selected height notAbove
    obtain ⟨tipId, isTip, tipFound⟩ := Option.bind_eq_some_iff.mp selected
    obtain ⟨id, entry, descends, found, atHeight⟩ :=
      sound.ancestor_at tipFound notAbove
    refine ⟨id, ⟨(sound.isOnBestChain_iff id).mpr ⟨tipId, isTip, descends⟩,
      entry, found, atHeight⟩, ?_⟩
    rintro other ⟨onChain, otherEntry, otherFound, otherHeight⟩
    obtain ⟨otherTip, sameTip, otherDescends⟩ :=
      (sound.isOnBestChain_iff other).mp onChain
    rw [isTip] at sameTip
    cases sameTip
    exact otherDescends.unique sound.heightLinked descends otherFound found
      (otherHeight.trans atHeight.symm)
  case prunedTip =>
    intro id tip selected present
    obtain ⟨removed, remaining, nextTip, pruned, _, exact, _⟩ :=
      pruneConnectedSubtreeIds_eq sound.heightLinked present
    refine ⟨_, _, pruned, ?_⟩
    rw [List.mem_insertionSort, exact, sound.isOnBestChain_iff id]
    simp [selected]

end ShareChain

/--
Whatever calls are made, the walk of `is_on_best_chain` describes the path from
the best tip to its root.
-/
theorem attemptOps_bestChain
    {backend : Backend}
    {start : ShareChain}
    (ops : List ChainOp)
    (fresh : ShareChain.Fresh backend start) :
    (attemptOps backend ops start).BestChainLaws :=
  (attemptOps_sound fresh.wellFormed.sound
    fresh.wellFormed.trusted).1.bestChainLaws

/-- A fork: a root with a child of work two, and another root of work one. -/
def sampleForkOps : List ChainOp :=
  [ .submit (sampleShare 0 0 0 1) sampleContext 1000 .light
  , .submit (sampleShare 1 1 1 1) sampleContext 1000 .light
  , .addUnchecked (sampleShare 0 0 5 1) ]

/-- On the fork the child and its root are on the best chain, the rest stale. -/
theorem sampleForkOps_bestChain :
    ((attemptOps sampleBackend sampleForkOps sampleStart).isOnBestChain 1 =
        true ∧
      (attemptOps sampleBackend sampleForkOps sampleStart).isStale 6 =
        true) ∧
      (attemptOps sampleBackend sampleForkOps sampleStart).BestChainLaws :=
  ⟨by decide +kernel,
    attemptOps_bestChain sampleForkOps
      (.inr ⟨sampleParameters, sampleStart_built⟩)⟩

end ZanoP2pool
