import ZanoP2pool.ShareChainIndex

namespace ZanoP2pool

open Foundation

/-!
# Removal of a connected subtree

The breadth-first closure of a prune removes a set that is closed under
connected children, and the scan of the remaining entries selects their
greatest.  Neither runs out of budget or throws on a sound chain.
-/

namespace ShareChain

variable {backend : Backend} {chain : ShareChain}

theorem mem_childIds
    {parentId id : ShareId} :
    id ∈ chain.childIds parentId ↔
      ∃ entry,
        chain.connected[id]? = some entry ∧
        entry.share.parentId ≠ 0 ∧
        entry.share.parentId = parentId := by
  simp only [childIds, List.mem_map, List.mem_filter, Bool.and_eq_true,
    Bool.not_eq_true', isZeroShareId_eq_false, beq_iff_eq,
    Std.ExtTreeMap.mem_toList_iff_getElem?_eq_some, Prod.exists]
  constructor
  · rintro ⟨key, entry, ⟨found, nonzero, parent⟩, rfl⟩
    exact ⟨entry, found, nonzero, parent⟩
  · rintro ⟨entry, found, nonzero, parent⟩
    exact ⟨id, entry, ⟨found, nonzero, parent⟩, rfl⟩

theorem nodup_childIds
    (parentId : ShareId) :
    (chain.childIds parentId).Nodup := by
  have distinct : (chain.connected.toList.map Prod.fst).Nodup := by
    rw [Std.ExtTreeMap.map_fst_toList_eq_keys]
    exact Std.ExtTreeMap.nodup_keys
  exact distinct.sublist (List.filter_sublist.map Prod.fst)

/-- Distinct connected identities are not more than the connected shares. -/
theorem length_le_of_connected
    {ids : List ShareId}
    (distinct : ids.Nodup)
    (connected : ∀ id ∈ ids, ∃ entry, chain.connected[id]? = some entry) :
    ids.length ≤ chain.connected.size := by
  have contained : ids ⊆ chain.connected.keys := by
    intro id member
    rw [Std.ExtTreeMap.mem_keys, Std.ExtTreeMap.mem_iff_contains]
    exact contains_iff_getElem?.mpr (connected id member)
  have bounded := (List.subperm_of_subset distinct contained).length_le
  rwa [Std.ExtTreeMap.length_keys] at bounded

/-- Every connected share but a root stands one above its connected parent. -/
def HeightLinked (connected : ShareMap ConnectedShare) : Prop :=
  ∀ ⦃id : ShareId⦄ ⦃entry : ConnectedShare⦄,
    connected[id]? = some entry →
    entry.share.parentId ≠ 0 →
      ∃ parent,
        connected[entry.share.parentId]? = some parent ∧
        entry.share.shareHeight.toNat =
          parent.share.shareHeight.toNat + 1

theorem Sound.heightLinked
    (sound : Sound backend chain) :
    HeightLinked chain.connected := by
  intro id entry found nonzero
  obtain ⟨branch, isBranch, linked, _⟩ := sound.rooted found
  obtain ⟨parent, rest, parentFound, rfl, _⟩ := isBranch.head nonzero
  exact ⟨parent, parentFound, parentLink_height linked⟩

/-- A connected identity whose path to the root contains another one. -/
inductive Descends
    (connected : ShareMap ConnectedShare)
    (ancestor : ShareId) :
    ShareId → Prop where
  | self
      {entry : ConnectedShare} :
      connected[ancestor]? = some entry →
      Descends connected ancestor ancestor
  | child
      {id : ShareId}
      {entry : ConnectedShare} :
      connected[id]? = some entry →
      entry.share.parentId ≠ 0 →
      Descends connected ancestor entry.share.parentId →
      Descends connected ancestor id

/--
The state of the breadth-first closure: what has been taken off the queue is
closed under children up to the queue, and nothing occurs twice.
-/
structure Frontier
    (chain : ShareChain)
    (rootHeight : Nat)
    (rootId : ShareId)
    (done queue : List ShareId) :
    Prop where
  distinct : (done ++ queue).Nodup
  reached :
    ∀ id ∈ done ++ queue, ∃ entry,
      chain.connected[id]? = some entry ∧
      rootHeight ≤ entry.share.shareHeight.toNat ∧
      (id = rootId ∨
        (entry.share.parentId ≠ 0 ∧ entry.share.parentId ∈ done))
  root :
    ∃ entry,
      chain.connected[rootId]? = some entry ∧
      entry.share.shareHeight.toNat = rootHeight
  closed :
    ∀ id ∈ done, ∀ child ∈ chain.childIds id, child ∈ done ++ queue

/-- Taking one identity off the queue and adding its children. -/
theorem Frontier.advance
    (linked : HeightLinked chain.connected)
    {rootHeight : Nat}
    {rootId id : ShareId}
    {done queue : List ShareId}
    (frontier : Frontier chain rootHeight rootId done (id :: queue)) :
    Frontier chain rootHeight rootId (done ++ [id])
      (queue ++ chain.childIds id) := by
  have regroup :
      (done ++ [id]) ++ (queue ++ chain.childIds id) =
        (done ++ id :: queue) ++ chain.childIds id := by
    simp
  obtain ⟨parent, parentFound, parentHeight, _⟩ :=
    frontier.reached id (by simp)
  have idFresh : id ∉ done := by
    intro member
    exact (List.nodup_append.mp frontier.distinct).2.2 id member id
      (by simp) rfl
  have childOf :
      ∀ child ∈ chain.childIds id, ∃ entry,
        chain.connected[child]? = some entry ∧
        entry.share.parentId ≠ 0 ∧
        entry.share.parentId = id ∧
        entry.share.shareHeight.toNat =
          parent.share.shareHeight.toNat + 1 := by
    intro child member
    obtain ⟨entry, found, nonzero, sameParent⟩ := mem_childIds.mp member
    obtain ⟨other, otherFound, above⟩ := linked found nonzero
    rw [sameParent, parentFound] at otherFound
    cases otherFound
    exact ⟨entry, found, nonzero, sameParent, above⟩
  constructor
  case distinct =>
    rw [regroup]
    refine frontier.distinct.append (nodup_childIds id) ?_
    intro child inFrontier isChild
    obtain ⟨entry, found, _, sameParent, height⟩ := childOf child isChild
    obtain ⟨other, otherFound, _, origin⟩ :=
      frontier.reached child inFrontier
    rw [found] at otherFound
    cases otherFound
    rcases origin with isRoot | ⟨_, parentDone⟩
    · obtain ⟨rootEntry, rootFound, rootHeightEq⟩ := frontier.root
      rw [← isRoot, found] at rootFound
      cases rootFound
      omega
    · exact idFresh (sameParent ▸ parentDone)
  case reached =>
    intro other member
    rw [regroup] at member
    rcases List.mem_append.mp member with old | isChild
    · obtain ⟨entry, found, height, origin⟩ := frontier.reached other old
      exact ⟨entry, found, height,
        origin.imp_right (And.imp_right (List.mem_append_left _))⟩
    · obtain ⟨entry, found, nonzero, sameParent, height⟩ :=
        childOf other isChild
      exact ⟨entry, found, by omega,
        .inr ⟨nonzero, by simp [sameParent]⟩⟩
  case root => exact frontier.root
  case closed =>
    intro other member child isChild
    rw [regroup]
    rcases List.mem_append.mp member with old | isHead
    · exact List.mem_append_left _ (frontier.closed other old child isChild)
    · rw [List.mem_singleton.mp isHead] at isChild
      exact List.mem_append_right _ isChild

@[simp]
theorem subtreeFrom_nil
    (budget : Nat) :
    chain.subtreeFrom budget [] = [] := by
  cases budget <;> rfl

/--
The closure ends with an empty queue within its budget, so that a larger budget
changes nothing.
-/
theorem subtreeFrom_closed
    (linked : HeightLinked chain.connected)
    {rootHeight : Nat}
    {rootId : ShareId}
    {done queue : List ShareId}
    (frontier : Frontier chain rootHeight rootId done queue)
    (budget : Nat)
    (enough : chain.connected.size ≤ budget + done.length) :
    Frontier chain rootHeight rootId
        (done ++ chain.subtreeFrom budget queue) [] ∧
      ∀ more,
        chain.subtreeFrom (budget + more) queue =
          chain.subtreeFrom budget queue := by
  induction budget generalizing done queue with
  | zero =>
      have bounded := length_le_of_connected frontier.distinct
        fun id member =>
          let ⟨entry, found, _⟩ := frontier.reached id member
          ⟨entry, found⟩
      rw [List.length_append] at bounded
      have empty : queue = [] := List.length_eq_zero_iff.mp (by omega)
      subst queue
      simpa using frontier
  | succ budget inductionHypothesis =>
      cases queue with
      | nil => simpa using frontier
      | cons id queue =>
          have advanced := frontier.advance linked
          obtain ⟨finished, same⟩ := inductionHypothesis advanced (by
            rw [List.length_append, List.length_singleton]
            omega)
          rw [List.append_assoc, List.singleton_append] at finished
          refine ⟨finished, fun more => ?_⟩
          rw [Nat.succ_add, subtreeFrom, subtreeFrom, same]

/-- Lookup in a map from which several keys were erased. -/
theorem getElem?_foldl_erase
    {α : Type}
    {removed : List ShareId}
    {map : ShareMap α}
    {id : ShareId}
    {value : α} :
    (removed.foldl (·.erase ·) map)[id]? = some value ↔
      map[id]? = some value ∧ id ∉ removed := by
  induction removed generalizing map with
  | nil => simp
  | cons erased rest inductionHypothesis =>
      rw [List.foldl_cons, inductionHypothesis, getElem?_erase_iff,
        List.mem_cons]
      tauto

/-- The closure of a connected root never runs out of its budget. -/
theorem subtreeFrom_frontier
    (linked : HeightLinked chain.connected)
    {rootId : ShareId}
    (present : chain.contains rootId = true) :
    (∃ rootHeight,
      Frontier chain rootHeight rootId
        (chain.subtreeFrom chain.connected.size [rootId]) []) ∧
      ∀ more,
        chain.subtreeFrom (chain.connected.size + more) [rootId] =
          chain.subtreeFrom chain.connected.size [rootId] := by
  obtain ⟨root, rootFound⟩ := contains_iff_getElem?.mp present
  have start :
      Frontier chain root.share.shareHeight.toNat rootId [] [rootId] := by
    refine ⟨by simp, ?_, ⟨root, rootFound, rfl⟩, by simp⟩
    intro id member
    have isRoot : id = rootId := by simpa using member
    subst id
    exact ⟨root, rootFound, le_refl _, .inl rfl⟩
  obtain ⟨finished, same⟩ :=
    subtreeFrom_closed linked start chain.connected.size (by simp)
  rw [List.nil_append] at finished
  exact ⟨⟨_, finished⟩, same⟩

theorem root_mem_subtreeFrom
    (rootId : ShareId) :
    rootId ∈ chain.subtreeFrom chain.connected.size [rootId] := by
  cases chain.connected.size with
  | zero => simp [subtreeFrom]
  | succ budget => simp [subtreeFrom]

/-- The closure of a connected root is the set of its descendants. -/
theorem mem_subtreeFrom
    (linked : HeightLinked chain.connected)
    {rootId id : ShareId}
    (present : chain.contains rootId = true) :
    id ∈ chain.subtreeFrom chain.connected.size [rootId] ↔
      Descends chain.connected rootId id := by
  obtain ⟨⟨rootHeight, frontier⟩, _⟩ := subtreeFrom_frontier linked present
  constructor
  · intro member
    obtain ⟨first, found⟩ : ∃ first, chain.connected[id]? = some first := by
      obtain ⟨first, found, _⟩ := frontier.reached id (by simpa using member)
      exact ⟨first, found⟩
    -- heights decrease towards the root
    induction height : first.share.shareHeight.toNat
        using Nat.strong_induction_on generalizing id first with
    | _ height inductionHypothesis =>
        obtain ⟨entry, entryFound, _, origin⟩ :=
          frontier.reached id (by simpa using member)
        rw [found] at entryFound
        cases entryFound
        rcases origin with rfl | ⟨nonzero, parentIn⟩
        · exact .self found
        · obtain ⟨parent, parentFound, above⟩ := linked found nonzero
          exact .child found nonzero
            (inductionHypothesis _ (by omega) parentIn parent parentFound
              rfl)
  · intro descends
    induction descends with
    | self found => exact root_mem_subtreeFrom rootId
    | child found nonzero _ parentIn =>
        have isChild := mem_childIds.mpr ⟨_, found, nonzero, rfl⟩
        simpa using frontier.closed _ parentIn _ isChild

/-- A prune removes a set closed under connected children. -/
theorem subtreeFrom_retains
    (linked : HeightLinked chain.connected)
    {rootId : ShareId}
    (present : chain.contains rootId = true) :
    Retains chain.connected
      ((chain.subtreeFrom chain.connected.size [rootId]).foldl
        (·.erase ·) chain.connected)
      (chain.subtreeFrom chain.connected.size [rootId]) := by
  refine ⟨fun _ _ => getElem?_foldl_erase, ?_⟩
  intro id entry found nonzero parentRemoved
  rw [mem_subtreeFrom linked present] at parentRemoved ⊢
  exact .child found nonzero parentRemoved

/-- The tip chosen among the entries scanned so far. -/
def BestAmong
    (scanned : List (ShareId × ConnectedShare)) :
    Option ShareId → Prop
  | none => scanned = []
  | some best =>
      ∃ entry,
        (best, entry) ∈ scanned ∧
        ∀ item ∈ scanned, tipRank item.2 ≤ tipRank entry

/-- One step of the scan keeps the choice greatest. -/
theorem reselectTip_ok
    {remaining : ShareMap ConnectedShare}
    {scanned : List (ShareId × ConnectedShare)}
    {best : Option ShareId}
    (fromMap :
      ∀ other ∈ scanned, remaining[other.1]? = some other.2)
    (chosen : BestAmong scanned best)
    (item : ShareId × ConnectedShare) :
    ∃ next,
      reselectTip remaining best item = .ok next ∧
      BestAmong (scanned ++ [item]) next := by
  cases best with
  | none =>
      rw [show scanned = [] from chosen]
      exact ⟨some item.1, rfl, item.2, by simp, by simp⟩
  | some current =>
      obtain ⟨entry, member, greatest⟩ := chosen
      have found := fromMap _ member
      simp only at found
      cases better : betterTip item.2 entry with
      | true =>
          have above := betterTip_iff.mp better
          refine ⟨some item.1, by simp [reselectTip, found, better],
            item.2, by simp, ?_⟩
          intro other otherMember
          rcases List.mem_append.mp otherMember with old | new
          · exact le_trans (greatest other old) (le_of_lt above)
          · rw [List.mem_singleton.mp new]
      | false =>
          refine ⟨some current, by simp [reselectTip, found, better],
            entry, List.mem_append_left _ member, ?_⟩
          intro other otherMember
          rcases List.mem_append.mp otherMember with old | new
          · exact greatest other old
          · rw [List.mem_singleton.mp new, ← not_lt, ← betterTip_iff]
            simp [better]

/-- The scan of a list of entries ends at a greatest one. -/
theorem foldlM_reselectTip
    {remaining : ShareMap ConnectedShare}
    {items scanned : List (ShareId × ConnectedShare)}
    {best : Option ShareId}
    (fromMap :
      ∀ other ∈ scanned ++ items, remaining[other.1]? = some other.2)
    (chosen : BestAmong scanned best) :
    ∃ final,
      items.foldlM (reselectTip remaining) best = .ok final ∧
      BestAmong (scanned ++ items) final := by
  induction items generalizing scanned best with
  | nil =>
      exact ⟨best, rfl, by simpa using chosen⟩
  | cons item rest inductionHypothesis =>
      obtain ⟨next, stepped, chosenNext⟩ :=
        reselectTip_ok
          (fun other member =>
            fromMap other (List.mem_append_left _ member)) chosen item
      obtain ⟨final, ran, chosenFinal⟩ :=
        inductionHypothesis (by simpa using fromMap) chosenNext
      refine ⟨final, ?_, by simpa using chosenFinal⟩
      rw [List.foldlM_cons, stepped]
      exact ran

/-- The recomputed tip of a prune is the greatest remaining entry. -/
theorem reselectTip_isBestTip
    (remaining : ShareMap ConnectedShare) :
    ∃ tip,
      remaining.toList.foldlM (reselectTip remaining) none = .ok tip ∧
      IsBestTip remaining tip := by
  have fromMap :
      ∀ other ∈ remaining.toList, remaining[other.1]? = some other.2 :=
    fun _ member =>
      Std.ExtTreeMap.mem_toList_iff_getElem?_eq_some.mp member
  have start : BestAmong [] none := rfl
  obtain ⟨tip, ran, chosen⟩ := foldlM_reselectTip fromMap start
  refine ⟨tip, ran, ?_⟩
  rw [List.nil_append] at chosen
  have listed :
      ∀ ⦃id : ShareId⦄ ⦃entry : ConnectedShare⦄,
        remaining[id]? = some entry → (id, entry) ∈ remaining.toList :=
    fun _ _ found =>
      Std.ExtTreeMap.mem_toList_iff_getElem?_eq_some.mpr found
  cases tip with
  | none =>
      intro id
      rw [Option.eq_none_iff_forall_ne_some]
      intro entry found
      have member := listed found
      rw [show remaining.toList = [] from chosen] at member
      simp at member
  | some best =>
      obtain ⟨entry, member, greatest⟩ := chosen
      exact ⟨entry, fromMap _ member,
        fun id other found => greatest (id, other) (listed found)⟩

/-- What a prune does to a sound chain. -/
inductive PruneOutcome
    (chain : ShareChain)
    (rootId : ShareId) :
    EStateM.Result Exception ShareChain (List ShareId) → Prop where
  | absent :
      chain.contains rootId = false →
      PruneOutcome chain rootId (.ok [] chain)
  | removed
      {remaining : ShareMap ConnectedShare}
      {removed : List ShareId}
      {tip : Option ShareId} :
      chain.contains rootId = true →
      rootId ∈ removed →
      Retains chain.connected remaining removed →
      IsBestTip remaining tip →
      PruneOutcome chain rootId
        (.ok (removed.insertionSort (· ≤ ·))
          (chain.retain remaining tip))

/-- A prune of a sound chain never throws. -/
theorem pruneConnectedSubtreeIds_outcome
    (sound : Sound backend chain)
    (rootId : ShareId) :
    PruneOutcome chain rootId (pruneConnectedSubtreeIds rootId chain) := by
  unfold pruneConnectedSubtreeIds
  rw [get_bind_apply]
  cases present : chain.contains rootId with
  | false =>
      exact .absent present
  | true =>
      have member := @root_mem_subtreeFrom chain rootId
      have retains := subtreeFrom_retains sound.heightLinked present
      rw [if_neg (by simp), set_bind_apply]
      generalize chain.subtreeFrom chain.connected.size [rootId] = removed
        at member retains ⊢
      obtain ⟨tip, scanned, best⟩ :=
        reselectTip_isBestTip (removed.foldl (·.erase ·) chain.connected)
      rw [scanned, bind_of_ok (orThrow_ok _ _), modify_bind_apply]
      exact .removed present member retains best

/-- A prune never throws. -/
theorem pruneConnectedSubtreeIds_ok
    (chain : ShareChain)
    (rootId : ShareId) :
    ∃ prunedIds pruned,
      pruneConnectedSubtreeIds rootId chain = .ok prunedIds pruned := by
  unfold pruneConnectedSubtreeIds
  rw [get_bind_apply]
  cases present : chain.contains rootId with
  | false => exact ⟨_, _, rfl⟩
  | true =>
      rw [if_neg (by simp), set_bind_apply]
      generalize chain.subtreeFrom chain.connected.size [rootId] = removed
      obtain ⟨tip, scanned, _⟩ :=
        reselectTip_isBestTip (removed.foldl (·.erase ·) chain.connected)
      rw [scanned, bind_of_ok (orThrow_ok _ _), modify_bind_apply]
      exact ⟨_, _, rfl⟩

/-- A prune of a connected root removes exactly its descendants. -/
theorem pruneConnectedSubtreeIds_eq
    (linked : HeightLinked chain.connected)
    {rootId : ShareId}
    (present : chain.contains rootId = true) :
    ∃ removed remaining tip,
      pruneConnectedSubtreeIds rootId chain =
        .ok (removed.insertionSort (· ≤ ·)) (chain.retain remaining tip) ∧
      removed.Nodup ∧
      (∀ id, id ∈ removed ↔ Descends chain.connected rootId id) ∧
      Retains chain.connected remaining removed ∧
      remaining.toList.foldlM (reselectTip remaining) none = .ok tip := by
  obtain ⟨⟨_, frontier⟩, _⟩ := subtreeFrom_frontier linked present
  have distinct : (chain.subtreeFrom chain.connected.size [rootId]).Nodup := by
    simpa using frontier.distinct
  have exact :
      ∀ id, id ∈ chain.subtreeFrom chain.connected.size [rootId] ↔
        Descends chain.connected rootId id :=
    fun id => mem_subtreeFrom linked present
  have retains := subtreeFrom_retains linked present
  unfold pruneConnectedSubtreeIds
  rw [get_bind_apply, if_neg (by simp [present]), set_bind_apply]
  generalize chain.subtreeFrom chain.connected.size [rootId] = removed
    at distinct exact retains ⊢
  obtain ⟨tip, scanned, _⟩ :=
    reselectTip_isBestTip (removed.foldl (·.erase ·) chain.connected)
  rw [scanned, bind_of_ok (orThrow_ok _ _), modify_bind_apply]
  exact ⟨removed, _, tip, rfl, distinct, exact, retains, scanned⟩

/-- A prune is a sequence of elementary changes. -/
theorem PruneOutcome.changes
    {incoming : Option OrphanShare}
    {rootId : ShareId}
    {result : EStateM.Result Exception ShareChain (List ShareId)}
    (outcome : PruneOutcome chain rootId result) :
    Changes backend incoming chain (finalState result) := by
  cases outcome with
  | absent _ => exact .refl
  | removed _ _ retains best => exact .single (.retain retains best)

end ShareChain

end ZanoP2pool
