import ZanoP2pool.ReconciliationExact

namespace ZanoP2pool

open Foundation

/-!
# Exactness of a prune

A prune reports exactly the shares it removes, in ascending order, and two prunes
commute: what both remove together does not depend on which runs first.
-/

namespace ShareChain

variable {backend : Backend} {chain : ShareChain}

/-- A list without repetitions is sorted strictly. -/
theorem insertionSort_ascending
    {ids : List ShareId}
    (distinct : ids.Nodup) :
    (ids.insertionSort (· ≤ ·)).Pairwise (· < ·) := by
  have sorted : (ids.insertionSort (· ≤ ·)).Pairwise (· ≤ ·) :=
    List.pairwise_insertionSort (· ≤ ·) ids
  have once : (ids.insertionSort (· ≤ ·)).Nodup :=
    (List.perm_insertionSort (· ≤ ·) ids).nodup_iff.mpr distinct
  exact (sorted.and once).imp fun both => lt_of_le_of_ne both.1 both.2

/-- What a prune reports and leaves. -/
structure ExactPrune
    (chain : ShareChain)
    (rootId : ShareId)
    (removed : List ShareId)
    (final : ShareChain) :
    Prop where
  ascending : removed.Pairwise (· < ·)
  reported :
    ∀ id, id ∈ removed ↔ Descends chain.connected rootId id
  reduced : Reduced (Descends chain.connected rootId) chain final

/-- A prune of a share that is not connected has nothing to do. -/
theorem pruneConnectedSubtreeIds_absent
    {rootId : ShareId}
    (absent : chain.contains rootId = false) :
    pruneConnectedSubtreeIds rootId chain = .ok [] chain := by
  unfold pruneConnectedSubtreeIds
  rw [get_bind_apply, absent]
  rfl

/-- The path of a connected share ends in connected shares only. -/
theorem Descends.rootPresent
    {connected : ShareMap ConnectedShare}
    {ancestor id : ShareId}
    (descends : Descends connected ancestor id) :
    ∃ entry, connected[ancestor]? = some entry := by
  induction descends with
  | self found => exact ⟨_, found⟩
  | child _ _ _ inductionHypothesis => exact inductionHypothesis

/-- Every prune of linked shares is exact. -/
theorem pruneConnectedSubtreeIds_exact
    (linked : HeightLinked chain.connected)
    (rootId : ShareId) :
    ∃ removed final,
      pruneConnectedSubtreeIds rootId chain = .ok removed final ∧
        ExactPrune chain rootId removed final := by
  cases present : chain.contains rootId with
  | false =>
      have none : ∀ id, ¬ Descends chain.connected rootId id := by
        intro id descends
        have there := contains_iff_getElem?.mpr descends.rootPresent
        rw [show chain.connected.contains rootId = chain.contains rootId from
          rfl, present] at there
        cases there
      refine ⟨[], chain, pruneConnectedSubtreeIds_absent present,
        .nil, ?_, .refl fun id _ _ => none id⟩
      intro id
      exact iff_of_false List.not_mem_nil (none id)
  | true =>
      obtain ⟨removed, remaining, tip, pruned, distinct, exact, _⟩ :=
        pruneConnectedSubtreeIds_eq linked present
      obtain ⟨_, final, again, _, reduced⟩ :=
        pruneConnectedSubtreeIds_reduced linked present
      rw [pruned] at again
      cases again
      refine ⟨_, _, pruned, insertionSort_ascending distinct, ?_, reduced⟩
      intro id
      rw [List.mem_insertionSort, exact]

/-- A second prune removes what descends from it and is still there. -/
theorem descends_either
    {middle : ShareChain}
    {first second id : ShareId}
    (reduced : Reduced (Descends chain.connected first) chain middle) :
    (Descends chain.connected first id ∨
        Descends middle.connected second id) ↔
      Descends chain.connected first id ∨
        Descends chain.connected second id := by
  by_cases below : Descends chain.connected first id
  · exact iff_of_true (.inl below) (.inl below)
  · rw [reduced.descends_iff descends_closed below]

/-- Two prunes remove what descends from one or the other. -/
theorem pruneConnectedSubtreeIds_twice
    (linked : HeightLinked chain.connected)
    (first second : ShareId) :
    ∃ removed middle later final,
      pruneConnectedSubtreeIds first chain = .ok removed middle ∧
      pruneConnectedSubtreeIds second middle = .ok later final ∧
      (∀ id, id ∈ removed ∨ id ∈ later ↔
        Descends chain.connected first id ∨
          Descends chain.connected second id) ∧
      Reduced (fun id => Descends chain.connected first id ∨
        Descends chain.connected second id) chain final := by
  obtain ⟨removed, middle, pruned, exact⟩ :=
    pruneConnectedSubtreeIds_exact linked first
  obtain ⟨later, final, prunedAgain, exactAgain⟩ :=
    pruneConnectedSubtreeIds_exact
      (exact.reduced.heightLinked descends_closed linked) second
  refine ⟨removed, middle, later, final, pruned, prunedAgain, ?_, ?_⟩
  · intro id
    rw [exact.reported, exactAgain.reported, descends_either exact.reduced]
  · exact (exact.reduced.trans exactAgain.reduced).congr fun id _ _ =>
      descends_either exact.reduced

/--
A prune of a chain with the representation invariant returns.  It reports exactly
the shares whose path holds the root, in ascending order, and removes these;
everything else is as it was and the tip is the greatest entry left.  Two prunes
commute.
-/
theorem pruneConnectedSubtreeIds_decides
    (invariant : RepresentationInvariant backend chain)
    (rootId otherId : ShareId) :
    (∃ removed final,
      pruneConnectedSubtreeIds rootId chain = .ok removed final ∧
      (chain.contains rootId = false → removed = [] ∧ final = chain) ∧
      removed.Pairwise (· < ·) ∧
      (∀ id, id ∈ removed ↔ Descends chain.connected rootId id) ∧
      (∀ (id : ShareId) entry, final.connected[id]? = some entry ↔
        chain.connected[id]? = some entry ∧ id ∉ removed) ∧
      final = { chain with
        connected := final.connected, bestTipId := final.bestTipId } ∧
      IsBestTip final.connected final.bestTipId) ∧
    ∃ removed middle later final removedOther middleOther laterOther,
      pruneConnectedSubtreeIds rootId chain = .ok removed middle ∧
      pruneConnectedSubtreeIds otherId middle = .ok later final ∧
      pruneConnectedSubtreeIds otherId chain =
        .ok removedOther middleOther ∧
      pruneConnectedSubtreeIds rootId middleOther = .ok laterOther final ∧
      ∀ id, id ∈ removed ∨ id ∈ later ↔
        id ∈ removedOther ∨ id ∈ laterOther := by
  have linked := invariant.heightLinked
  constructor
  · obtain ⟨removed, final, pruned, exact⟩ :=
      pruneConnectedSubtreeIds_exact linked rootId
    refine ⟨removed, final, pruned, ?_, exact.ascending, exact.reported, ?_,
      exact.reduced.shape, exact.reduced.isBestTip invariant.isBestTip⟩
    · intro absent
      rw [pruneConnectedSubtreeIds_absent absent] at pruned
      cases pruned
      exact ⟨rfl, rfl⟩
    · intro id entry
      rw [exact.reduced.lookup, exact.reported]
  · obtain ⟨removed, middle, later, final, pruned, prunedLater, members,
      reduced⟩ := pruneConnectedSubtreeIds_twice linked rootId otherId
    obtain ⟨removedOther, middleOther, laterOther, finalOther, prunedOther,
      prunedOtherLater, membersOther, reducedOther⟩ :=
      pruneConnectedSubtreeIds_twice linked otherId rootId
    obtain rfl : final = finalOther :=
      reduced.unique (reducedOther.congr fun _ _ _ => or_comm)
    refine ⟨removed, middle, later, final, removedOther, middleOther,
      laterOther, pruned, prunedLater, prunedOther, prunedOtherLater, ?_⟩
    intro id
    rw [members, membersOther, or_comm]

/-- Pruning in a chain built by the sample operations. -/
theorem pruneConnectedSubtreeIds_sample :
    ∃ removed middle later final removedOther middleOther laterOther,
      pruneConnectedSubtreeIds 2
          (finalState (runOps sampleBackend sampleOps sampleStart)) =
        .ok removed middle ∧
      pruneConnectedSubtreeIds 3 middle = .ok later final ∧
      pruneConnectedSubtreeIds 3
          (finalState (runOps sampleBackend sampleOps sampleStart)) =
        .ok removedOther middleOther ∧
      pruneConnectedSubtreeIds 2 middleOther = .ok laterOther final ∧
      ∀ id, id ∈ removed ∨ id ∈ later ↔
        id ∈ removedOther ∨ id ∈ laterOther := by
  have ran :
      runOps sampleBackend sampleOps sampleStart =
        .ok () (finalState (runOps sampleBackend sampleOps sampleStart)) :=
    eq_ok_of_succeeds (by decide +kernel)
  have fresh : Fresh sampleBackend sampleStart :=
    .inr ⟨sampleParameters, sampleStart_built⟩
  exact (pruneConnectedSubtreeIds_decides
    (runOps_wellFormed fresh.wellFormed ran).1.representationInvariant 2 3).2

end ShareChain

end ZanoP2pool
