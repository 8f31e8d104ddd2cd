import ZanoP2pool.Reconciliation
import ZanoP2pool.ShareSolutions

namespace ZanoP2pool

open Foundation

/-!
# Exactness of reconciliation

Each pruning pass keeps exactly the shares without a stale share on their path,
and passes compose: the order of the heights does not matter, because a step only
revokes entries of its own height.
-/

namespace ShareChain

section Paths

variable {connected remaining : ShareMap ConnectedShare}

theorem Descends.present
    {ancestor id : ShareId}
    (descends : Descends connected ancestor id) :
    ∃ entry, connected[id]? = some entry := by
  cases descends with
  | self found => exact ⟨_, found⟩
  | child found _ _ => exact ⟨_, found⟩

theorem Descends.trans
    {first second third : ShareId}
    (lower : Descends connected first second)
    (upper : Descends connected second third) :
    Descends connected first third := by
  induction upper with
  | self _ => exact lower
  | child found nonzero _ inductionHypothesis =>
      exact .child found nonzero inductionHypothesis

/-- A stale share is connected at an identity. -/
def StaleAt
    (connected : ShareMap ConnectedShare)
    (stale : Share → Bool)
    (id : ShareId) :
    Prop :=
  ∃ entry, connected[id]? = some entry ∧ stale entry.share = true

/-- No share on the path of an identity is stale. -/
def Clear
    (connected : ShareMap ConnectedShare)
    (stale : Share → Bool)
    (id : ShareId) :
    Prop :=
  ∀ root, StaleAt connected stale root → ¬ Descends connected root id

/-- The path of a clear share holds no stale share. -/
theorem clear_iff_path
    {stale : Share → Bool}
    {id : ShareId}
    {entry : ConnectedShare}
    {below : List Share}
    (found : connected[id]? = some entry)
    (isBranch : Branch connected entry.share.parentId below) :
    Clear connected stale id ↔
      ∀ share ∈ entry.share :: below, stale share = false := by
  constructor
  · intro clear
    have ancestors :
        ∀ share ∈ entry.share :: below, ∃ root other,
          connected[root]? = some other ∧ other.share = share ∧
            Descends connected root id := by
      clear clear
      generalize pathParent : entry.share.parentId = parentId at isBranch
      induction isBranch generalizing id entry with
      | root =>
          intro share member
          obtain rfl := List.mem_singleton.mp member
          exact ⟨id, entry, found, rfl, .self found⟩
      | @step parentId parent rest nonzero parentFound _ inductionHypothesis =>
          intro share member
          rcases List.mem_cons.mp member with rfl | older
          · exact ⟨id, entry, found, rfl, .self found⟩
          · obtain ⟨root, other, otherFound, same, descends⟩ :=
              inductionHypothesis parentFound rfl share older
            subst pathParent
            exact ⟨root, other, otherFound, same,
              .child found nonzero descends⟩
    intro share member
    obtain ⟨root, other, otherFound, rfl, descends⟩ := ancestors share member
    by_contra isStale
    exact clear root ⟨other, otherFound, by simpa using isStale⟩ descends
  · rintro fresh root ⟨other, otherFound, isStale⟩ descends
    have onPath : other.share ∈ entry.share :: below := by
      clear fresh
      induction descends generalizing entry below with
      | self rootFound =>
          rw [found] at otherFound
          cases otherFound
          exact List.mem_cons_self
      | child idFound nonzero _ inductionHypothesis =>
          rw [found] at idFound
          cases idFound
          obtain ⟨parent, rest, parentFound, rfl, lower⟩ :=
            isBranch.head nonzero
          exact List.mem_cons_of_mem _
            (inductionHypothesis parentFound lower)
    rw [fresh _ onPath] at isStale
    cases isStale

end Paths

/--
A chain without some of its connected shares: everything else is as it was, and
the tip is selected again if a share is gone.
-/
structure Reduced
    (gone : ShareId → Prop)
    (chain final : ShareChain) :
    Prop where
  shape : final = chain.retain final.connected final.bestTipId
  lookup :
    ∀ ⦃id : ShareId⦄ ⦃entry : ConnectedShare⦄,
      final.connected[id]? = some entry ↔
        chain.connected[id]? = some entry ∧ ¬ gone id
  unchanged :
    (∀ (id : ShareId) entry,
      chain.connected[id]? = some entry → ¬ gone id) →
      final = chain
  reselected :
    (∃ (id : ShareId) (entry : ConnectedShare),
      chain.connected[id]? = some entry ∧ gone id) →
      final.connected.toList.foldlM (reselectTip final.connected) none =
        .ok final.bestTipId

namespace Reduced

variable {gone other : ShareId → Prop}
variable {chain middle final : ShareChain}

theorem refl
    (none :
      ∀ (id : ShareId) entry,
        chain.connected[id]? = some entry → ¬ gone id) :
    Reduced gone chain chain where
  shape := rfl
  lookup := fun id entry =>
    ⟨fun found => ⟨found, none id entry found⟩, fun found => found.1⟩
  unchanged := fun _ => rfl
  reselected := by
    rintro ⟨id, entry, found, isGone⟩
    exact absurd isGone (none id entry found)

theorem trans
    (first : Reduced gone chain middle)
    (second : Reduced other middle final) :
    Reduced (fun id => gone id ∨ other id) chain final where
  shape := by
    rw [second.shape, first.shape]
    rfl
  lookup := fun id entry => by
    rw [second.lookup, first.lookup, and_assoc, not_or]
  unchanged := fun none => by
    obtain rfl : middle = chain :=
      first.unchanged fun id entry found isGone =>
        none id entry found (.inl isGone)
    exact second.unchanged fun id entry found isGone =>
      none id entry found (.inr isGone)
  reselected := by
    rintro ⟨id, entry, found, isGone⟩
    by_cases later :
        ∃ (id : ShareId) (entry : ConnectedShare),
          middle.connected[id]? = some entry ∧ other id
    · exact second.reselected later
    · have same : final = middle :=
        second.unchanged fun id entry found isGone =>
          later ⟨id, entry, found, isGone⟩
      rw [same]
      apply first.reselected
      by_cases goneFirst : gone id
      · exact ⟨id, entry, found, goneFirst⟩
      · exact (later ⟨id, entry, first.lookup.mpr ⟨found, goneFirst⟩,
          isGone.resolve_left goneFirst⟩).elim

/-- Only what is gone of the connected shares matters. -/
theorem congr
    (reduced : Reduced gone chain final)
    (same :
      ∀ (id : ShareId) entry,
        chain.connected[id]? = some entry → (gone id ↔ other id)) :
    Reduced other chain final where
  shape := reduced.shape
  lookup := fun id entry => by
    rw [reduced.lookup]
    constructor
    · rintro ⟨found, kept⟩
      exact ⟨found, fun isGone => kept ((same id entry found).mpr isGone)⟩
    · rintro ⟨found, kept⟩
      exact ⟨found, fun isGone => kept ((same id entry found).mp isGone)⟩
  unchanged := fun none =>
    reduced.unchanged fun id entry found isGone =>
      none id entry found ((same id entry found).mp isGone)
  reselected := by
    rintro ⟨id, entry, found, isGone⟩
    exact reduced.reselected
      ⟨id, entry, found, (same id entry found).mpr isGone⟩

/-- What is gone determines the chain. -/
theorem unique
    (reduced : Reduced gone chain middle)
    (again : Reduced gone chain final) :
    middle = final := by
  by_cases none :
      ∀ (id : ShareId) entry,
        chain.connected[id]? = some entry → ¬ gone id
  · rw [reduced.unchanged none, again.unchanged none]
  · push Not at none
    obtain ⟨id, entry, found, isGone⟩ := none
    have connected : middle.connected = final.connected := by
      apply Std.ExtTreeMap.ext_getElem?
      intro id
      apply Option.ext
      intro entry
      rw [reduced.lookup, again.lookup]
    have scanned := reduced.reselected ⟨id, entry, found, isGone⟩
    have scannedAgain := again.reselected ⟨id, entry, found, isGone⟩
    rw [connected, scannedAgain] at scanned
    rw [reduced.shape, again.shape, connected, Except.ok.inj scanned]

/-- The tip of what is left is the greatest entry again. -/
theorem isBestTip
    (reduced : Reduced gone chain final)
    (best : IsBestTip chain.connected chain.bestTipId) :
    IsBestTip final.connected final.bestTipId := by
  by_cases changed :
      ∃ (id : ShareId) (entry : ConnectedShare),
        chain.connected[id]? = some entry ∧ gone id
  · obtain ⟨tip, scanned, selected⟩ := reselectTip_isBestTip final.connected
    rw [reduced.reselected changed] at scanned
    rw [Except.ok.inj scanned]
    exact selected
  · rw [reduced.unchanged fun id entry found isGone =>
      changed ⟨id, entry, found, isGone⟩]
    exact best

/-- A lineage whose shares are not gone is kept. -/
theorem descends_iff
    (reduced : Reduced gone chain final)
    (closed :
      ∀ (id : ShareId) entry,
        chain.connected[id]? = some entry →
        entry.share.parentId ≠ 0 →
        gone entry.share.parentId → gone id)
    {root id : ShareId}
    (kept : ¬ gone id) :
    Descends final.connected root id ↔
      Descends chain.connected root id := by
  constructor
  · intro descends
    induction descends with
    | self found => exact .self (reduced.lookup.mp found).1
    | child found nonzero _ inductionHypothesis =>
        have before := (reduced.lookup.mp found).1
        exact .child before nonzero
          (inductionHypothesis fun isGone =>
            kept (closed _ _ before nonzero isGone))
  · intro descends
    induction descends with
    | self found => exact .self (reduced.lookup.mpr ⟨found, kept⟩)
    | child found nonzero _ inductionHypothesis =>
        exact .child (reduced.lookup.mpr ⟨found, kept⟩) nonzero
          (inductionHypothesis fun isGone =>
            kept (closed _ _ found nonzero isGone))

theorem heightLinked
    (reduced : Reduced gone chain final)
    (closed :
      ∀ (id : ShareId) entry,
        chain.connected[id]? = some entry →
        entry.share.parentId ≠ 0 →
        gone entry.share.parentId → gone id)
    (linked : HeightLinked chain.connected) :
    HeightLinked final.connected := by
  intro id entry found nonzero
  obtain ⟨before, kept⟩ := reduced.lookup.mp found
  obtain ⟨parent, parentFound, above⟩ := linked before nonzero
  exact ⟨parent, reduced.lookup.mpr ⟨parentFound, fun isGone =>
    kept (closed id entry before nonzero isGone)⟩, above⟩

end Reduced

section Prune

variable {chain : ShareChain}

/-- A prune removes the descendants of a connected root. -/
theorem pruneConnectedSubtreeIds_reduced
    (linked : HeightLinked chain.connected)
    {rootId : ShareId}
    (present : chain.contains rootId = true) :
    ∃ removed final,
      pruneConnectedSubtreeIds rootId chain = .ok removed final ∧
      removed ≠ [] ∧
      Reduced (Descends chain.connected rootId) chain final := by
  obtain ⟨root, rootFound⟩ := contains_iff_getElem?.mp present
  obtain ⟨removed, remaining, tip, pruned, _, exact, retains, scanned⟩ :=
    pruneConnectedSubtreeIds_eq linked present
  have rootIn : rootId ∈ removed := (exact rootId).mpr (.self rootFound)
  refine ⟨_, _, pruned, ?_, rfl, ?_, ?_, fun _ => scanned⟩
  · intro empty
    have sorted := (List.perm_insertionSort (· ≤ ·) removed).mem_iff.mpr rootIn
    rw [empty] at sorted
    cases sorted
  · intro id entry
    change remaining[id]? = some entry ↔ _
    rw [retains.lookup, exact]
  · intro none
    exact absurd (.self rootFound) (none rootId root rootFound)

/-- An identity below a stale share of a list. -/
def BelowStale
    (connected : ShareMap ConnectedShare)
    (stale : Share → Bool)
    (roots : List ShareId)
    (id : ShareId) :
    Prop :=
  ∃ root ∈ roots, StaleAt connected stale root ∧ Descends connected root id

theorem descends_closed
    {rootId : ShareId}
    (id : ShareId)
    (entry : ConnectedShare)
    (found : chain.connected[id]? = some entry)
    (nonzero : entry.share.parentId ≠ 0)
    (parentGone : Descends chain.connected rootId entry.share.parentId) :
    Descends chain.connected rootId id :=
  .child found nonzero parentGone

/-- Skipping a root without a stale share changes nothing. -/
theorem belowStale_skip
    {connected : ShareMap ConnectedShare}
    {stale : Share → Bool}
    {rootId id : ShareId}
    {rest : List ShareId}
    (fresh : ¬ StaleAt connected stale rootId) :
    BelowStale connected stale rest id ↔
      BelowStale connected stale (rootId :: rest) id := by
  constructor
  · rintro ⟨root, member, isStale, descends⟩
    exact ⟨root, List.mem_cons_of_mem _ member, isStale, descends⟩
  · rintro ⟨root, member, isStale, descends⟩
    rcases List.mem_cons.mp member with rfl | later
    · exact absurd isStale fresh
    · exact ⟨root, later, isStale, descends⟩

/-- What the remaining roots remove after the first has been pruned. -/
theorem belowStale_prune
    {stale : Share → Bool}
    {middle : ShareChain}
    {rootId id : ShareId}
    {rest : List ShareId}
    (reduced : Reduced (Descends chain.connected rootId) chain middle)
    (isStale : StaleAt chain.connected stale rootId) :
    (Descends chain.connected rootId id ∨
        BelowStale middle.connected stale rest id) ↔
      BelowStale chain.connected stale (rootId :: rest) id := by
  constructor
  · rintro (descends | ⟨root, member, ⟨entry, found, rootStale⟩, descends⟩)
    · exact ⟨rootId, List.mem_cons_self, isStale, descends⟩
    · have kept : ¬ Descends chain.connected rootId id := by
        obtain ⟨top, topFound⟩ := descends.present
        exact (reduced.lookup.mp topFound).2
      exact ⟨root, List.mem_cons_of_mem _ member,
        ⟨entry, (reduced.lookup.mp found).1, rootStale⟩,
        (reduced.descends_iff descends_closed kept).mp descends⟩
  · rintro ⟨root, member, rootStale, descends⟩
    by_cases below : Descends chain.connected rootId id
    · exact .inl below
    · right
      rcases List.mem_cons.mp member with rfl | later
      · exact absurd descends below
      · obtain ⟨entry, found, entryStale⟩ := rootStale
        have rootKept : ¬ Descends chain.connected rootId root :=
          fun lower => below (lower.trans descends)
        exact ⟨root, later,
          ⟨entry, reduced.lookup.mpr ⟨found, rootKept⟩, entryStale⟩,
          (reduced.descends_iff descends_closed below).mpr descends⟩

/-- A pass over a list removes what is below its stale shares. -/
theorem pruneStale_reduced
    {stale : Share → Bool}
    {ids : List ShareId}
    (linked : HeightLinked chain.connected) :
    ∃ count final,
      pruneStale stale ids chain = .ok count final ∧
      Reduced (BelowStale chain.connected stale ids) chain final ∧
      (count ≠ 0 ↔ ∃ root ∈ ids, StaleAt chain.connected stale root) := by
  induction ids generalizing chain with
  | nil =>
      refine ⟨0, chain, rfl, .refl ?_, by simp⟩
      rintro id entry _ ⟨root, member, _⟩
      cases member
  | cons id rest inductionHypothesis =>
      by_cases isStale : StaleAt chain.connected stale id
      · have ⟨entry, found, entryStale⟩ := isStale
        have present : chain.contains id = true :=
          contains_iff_getElem?.mpr ⟨entry, found⟩
        obtain ⟨removed, middle, pruned, nonempty, reduced⟩ :=
          pruneConnectedSubtreeIds_reduced linked present
        obtain ⟨count, final, passed, later, _⟩ :=
          inductionHypothesis (reduced.heightLinked descends_closed linked)
        refine ⟨removed.length + count, final, ?_,
          (reduced.trans later).congr fun _ _ _ =>
            belowStale_prune reduced isStale, ?_⟩
        · simp only [pruneStale, get_bind_apply, find, found, entryStale,
            if_true]
          rw [bind_of_ok pruned, bind_of_ok passed]
          rfl
        · have long := List.length_pos_iff.mpr nonempty
          exact iff_of_true (by omega) ⟨id, List.mem_cons_self, isStale⟩
      · obtain ⟨count, final, passed, later, counts⟩ :=
          @inductionHypothesis chain linked
        refine ⟨count, final, ?_,
          later.congr fun _ _ _ => belowStale_skip isStale, ?_⟩
        · rw [← passed]
          simp only [pruneStale, get_bind_apply, find]
          cases found : chain.connected[id]? with
          | none => rfl
          | some entry =>
              have fresh : ¬ stale entry.share = true :=
                fun entryStale => isStale ⟨entry, found, entryStale⟩
              simp only [if_neg fresh]
        · rw [counts]
          constructor
          · rintro ⟨root, member, rootStale⟩
            exact ⟨root, List.mem_cons_of_mem _ member, rootStale⟩
          · rintro ⟨root, member, rootStale⟩
            rcases List.mem_cons.mp member with rfl | inRest
            · exact absurd rootStale isStale
            · exact ⟨root, inRest, rootStale⟩

theorem mem_pruneOrder
    {id : ShareId} :
    id ∈ chain.pruneOrder ↔ ∃ entry, chain.connected[id]? = some entry := by
  rw [pruneOrder, (List.perm_insertionSort _ _).mem_iff, connectedShareIds,
    Std.ExtTreeMap.mem_keys, Std.ExtTreeMap.mem_iff_contains]
  exact contains_iff_getElem?

/-- A pass over all connected shares keeps the clear ones. -/
theorem pruneStale_all
    {stale : Share → Bool}
    (linked : HeightLinked chain.connected) :
    ∃ count final,
      pruneStale stale chain.pruneOrder chain = .ok count final ∧
      Reduced (fun id => ¬ Clear chain.connected stale id) chain final ∧
      (count ≠ 0 ↔ ∃ root, StaleAt chain.connected stale root) := by
  have listed :
      ∀ root, StaleAt chain.connected stale root →
        root ∈ chain.pruneOrder := by
    rintro root ⟨entry, found, _⟩
    exact mem_pruneOrder.mpr ⟨entry, found⟩
  obtain ⟨count, final, passed, reduced, counts⟩ :=
    @pruneStale_reduced chain stale chain.pruneOrder linked
  refine ⟨count, final, passed, reduced.congr ?_, ?_⟩
  · intro id entry _
    unfold Clear
    push Not
    constructor
    · rintro ⟨root, _, isStale, descends⟩
      exact ⟨root, isStale, descends⟩
    · rintro ⟨root, isStale, descends⟩
      exact ⟨root, listed root isStale, isStale, descends⟩
  · rw [counts]
    constructor
    · rintro ⟨root, _, isStale⟩
      exact ⟨root, isStale⟩
    · rintro ⟨root, isStale⟩
      exact ⟨root, listed root isStale, isStale⟩

end Prune

/-- What is below a stale share passes it on to its children. -/
theorem clear_closed
    {stale : Share → Bool}
    {chain : ShareChain}
    (id : ShareId)
    (entry : ConnectedShare)
    (found : chain.connected[id]? = some entry)
    (nonzero : entry.share.parentId ≠ 0)
    (parentStale : ¬ Clear chain.connected stale entry.share.parentId) :
    ¬ Clear chain.connected stale id := by
  intro clear
  exact parentStale fun root isStale descends =>
    clear root isStale (.child found nonzero descends)

/-- Clear shares stay clear or not when others are removed. -/
theorem clear_reduced
    {first second : Share → Bool}
    {chain middle : ShareChain}
    (reduced :
      Reduced (fun id => ¬ Clear chain.connected first id) chain middle)
    (id : ShareId) :
    (¬ Clear chain.connected first id ∨
        ¬ Clear middle.connected second id) ↔
      ¬ Clear chain.connected (fun share => first share || second share)
        id := by
  rw [← not_and_or, not_iff_not]
  constructor
  · rintro ⟨clear, later⟩ root ⟨entry, found, isStale⟩ descends
    rcases Bool.or_eq_true_iff.mp isStale with early | late
    · exact clear root ⟨entry, found, early⟩ descends
    · have rootClear : Clear chain.connected first root :=
        fun lower lowerStale below =>
          clear lower lowerStale (below.trans descends)
      exact later root
        ⟨entry, reduced.lookup.mpr ⟨found, not_not.mpr rootClear⟩, late⟩
        ((reduced.descends_iff clear_closed (not_not.mpr clear)).mpr descends)
  · intro clear
    have early : Clear chain.connected first id :=
      fun root ⟨entry, found, isStale⟩ descends =>
        clear root ⟨entry, found, Bool.or_eq_true_iff.mpr (.inl isStale)⟩
          descends
    refine ⟨early, ?_⟩
    rintro root ⟨entry, found, isStale⟩ descends
    refine clear root ⟨entry, (reduced.lookup.mp found).1,
      Bool.or_eq_true_iff.mpr (.inr isStale)⟩ ?_
    exact (reduced.descends_iff clear_closed (not_not.mpr early)).mp descends

end ShareChain

namespace P2pTrustedWorkRegistry

variable {registry : P2pTrustedWorkRegistry}

theorem getElem?_eraseStale
    {stale : TrustedWorkKey → TrustedWorkEntry → Bool}
    {key : TrustedWorkKey}
    {entry : TrustedWorkEntry} :
    (registry.eraseStale stale).2.contexts[key]? = some entry ↔
      registry.contexts[key]? = some entry ∧ stale key entry = false := by
  simp only [eraseStale, Std.ExtTreeMap.getElem?_filter']
  rw [Option.filter_eq_some_iff, Bool.not_eq_true']

/-- A revocation at one height leaves the other heights alone. -/
theorem getElem?_eraseZanoParentMismatch_of_ne
    {zanoHeight : UInt64}
    {canonicalParentHash : Hash256}
    {key : TrustedWorkKey}
    (otherHeight : key.zanoHeight ≠ zanoHeight) :
    (registry.eraseZanoParentMismatch zanoHeight
      canonicalParentHash).2.contexts[key]? =
        registry.contexts[key]? := by
  apply Option.ext
  intro entry
  rw [eraseZanoParentMismatch, getElem?_eraseStale]
  simp [otherHeight]

/-- Pushing nondecreasing heights keeps each of them once, in order. -/
theorem foldl_pushHeight
    {heights found : List UInt64}
    (ordered :
      heights.Pairwise fun left right => left.toNat ≤ right.toNat)
    (increasing :
      found.Pairwise fun left right => left.toNat < right.toNat)
    (after :
      ∀ old ∈ found, ∀ height ∈ heights, old.toNat ≤ height.toNat) :
    ((heights.foldl pushHeight found).Pairwise
        fun left right => left.toNat < right.toNat) ∧
      ∀ height,
        height ∈ heights.foldl pushHeight found ↔
          height ∈ found ∨ height ∈ heights := by
  induction heights generalizing found with
  | nil => exact ⟨increasing, by simp⟩
  | cons first rest inductionHypothesis =>
      obtain ⟨below, orderedRest⟩ := List.pairwise_cons.mp ordered
      have afterRest :
          ∀ old ∈ found, ∀ height ∈ rest, old.toNat ≤ height.toNat :=
        fun old member height later =>
          after old member height (List.mem_cons_of_mem _ later)
      rw [List.foldl_cons, pushHeight]
      by_cases last : found.getLast? = some first
      · rw [if_pos last]
        obtain ⟨pairwise, members⟩ :=
          inductionHypothesis orderedRest increasing afterRest
        have known := List.mem_of_getLast? last
        refine ⟨pairwise, ?_⟩
        intro height
        rw [members, List.mem_cons]
        constructor
        · rintro (old | later)
          · exact .inl old
          · exact .inr (.inr later)
        · rintro (old | rfl | later)
          · exact .inl old
          · exact .inl known
          · exact .inr later
      · rw [if_neg last]
        have lowerThan : ∀ old ∈ found, old.toNat < first.toNat := by
          rcases List.eq_nil_or_concat found with rfl | ⟨older, top, rfl⟩
          · simp
          · rw [List.concat_eq_append] at *
            rw [List.getLast?_concat, Option.some.injEq] at last
            have topLe := after top (by simp) first List.mem_cons_self
            have topNe : top.toNat ≠ first.toNat :=
              fun same => last (UInt64.toNat_inj.mp same)
            obtain ⟨_, _, lower⟩ := List.pairwise_append.mp increasing
            intro old member
            rcases List.mem_append.mp member with earlier | isTop
            · have beforeTop := lower old earlier top (by simp)
              omega
            · rw [List.mem_singleton.mp isTop]
              omega
        have longer :
            (found ++ [first]).Pairwise
              fun left right => left.toNat < right.toNat := by
          rw [List.pairwise_append]
          refine ⟨increasing, List.pairwise_singleton _ _, ?_⟩
          intro old member other isFirst
          rw [List.mem_singleton.mp isFirst]
          exact lowerThan old member
        obtain ⟨pairwise, members⟩ :=
          inductionHypothesis orderedRest longer (by
            intro old member height later
            rcases List.mem_append.mp member with earlier | here
            · exact afterRest old earlier height later
            · rw [List.mem_singleton.mp here]
              exact below height later)
        refine ⟨pairwise, ?_⟩
        intro height
        rw [members, List.mem_append, List.mem_singleton, List.mem_cons,
          or_assoc]

/-- The provenance heights are increasing and come from entries. -/
theorem provenanceZanoHeights_spec :
    registry.provenanceZanoHeights.Nodup ∧
      ∀ height,
        height ∈ registry.provenanceZanoHeights ↔
          ∃ (key : TrustedWorkKey) (entry : TrustedWorkEntry),
            registry.contexts[key]? = some entry ∧
            entry.zanoParentHash.isSome = true ∧
            key.zanoHeight = height := by
  have heights :
      registry.provenanceZanoHeights =
        ((registry.contexts.toList.filter fun entry =>
          entry.2.zanoParentHash.isSome).map fun entry =>
            entry.1.zanoHeight).foldl pushHeight [] := by
    rw [List.foldl_map]
    rfl
  have sorted :
      ((registry.contexts.toList.filter fun entry =>
        entry.2.zanoParentHash.isSome).map fun entry =>
          entry.1.zanoHeight).Pairwise
            fun left right => left.toNat ≤ right.toNat := by
    rw [List.pairwise_map]
    refine (Std.ExtTreeMap.ordered_keys_toList.sublist
      List.filter_sublist).imp ?_
    intro left right before
    rcases Ordering.then_eq_lt.mp before with lower | ⟨same, _⟩
    · exact Nat.le_of_lt (UInt64.lt_iff_toNat_lt.mp
        (Std.compare_eq_lt.mp lower))
    · exact Nat.le_of_eq (congrArg UInt64.toNat
        (Std.LawfulEqOrd.compare_eq_iff_eq.mp same))
  obtain ⟨increasing, members⟩ :=
    foldl_pushHeight sorted List.Pairwise.nil (by simp)
  rw [heights]
  constructor
  · exact increasing.imp fun lower same => by
      subst same
      omega
  · intro height
    rw [members]
    simp only [List.not_mem_nil, false_or, List.mem_map, List.mem_filter,
      Std.ExtTreeMap.mem_toList_iff_getElem?_eq_some, Prod.exists]
    constructor
    · rintro ⟨key, entry, ⟨found, recorded⟩, same⟩
      exact ⟨key, entry, found, recorded, same⟩
    · rintro ⟨key, entry, found, recorded, same⟩
      exact ⟨key, entry, ⟨found, recorded⟩, same⟩

end P2pTrustedWorkRegistry

section Reconcile

variable {state : ConsensusState}

theorem onChain_of_ok
    {α : Type}
    {action : ChainM α}
    {value : α}
    {chain : ShareChain}
    (acted : action state.chain = .ok value chain) :
    onChain action state = .ok value { state with chain } := by
  simp only [onChain, acted]

/-- One reconciliation: a pruning pass, then a revocation. -/
theorem reconcile_ok
    {stale : P2pTrustedWorkRegistry → Share → Bool}
    {revoke : P2pTrustedWorkRegistry → Nat × P2pTrustedWorkRegistry}
    {resets : P2pCanonicalReconciliationResult → Bool}
    (linked : ShareChain.HeightLinked state.chain.connected) :
    ∃ result final,
      reconcile stale revoke resets state = .ok result final ∧
      ShareChain.Reduced
        (fun id =>
          ¬ ShareChain.Clear state.chain.connected (stale state.trustedWork)
            id) state.chain final.chain ∧
      final.trustedWork = (revoke state.trustedWork).2 ∧
      final.expected = (if resets result then {} else state.expected) ∧
      result.revokedTrustedWork = (revoke state.trustedWork).1 ∧
      (result.prunedConnectedShares ≠ 0 ↔
        ∃ root,
          ShareChain.StaleAt state.chain.connected (stale state.trustedWork)
            root) := by
  obtain ⟨count, chain, passed, reduced, counts⟩ :=
    @ShareChain.pruneStale_all state.chain (stale state.trustedWork) linked
  let result : P2pCanonicalReconciliationResult :=
    { prunedConnectedShares := count
      revokedTrustedWork := (revoke state.trustedWork).1 }
  refine ⟨result,
    { chain
      trustedWork := (revoke state.trustedWork).2
      expected := if resets result then {} else state.expected }, ?_,
    reduced, rfl, rfl, rfl, counts⟩
  unfold reconcile
  rw [get_bind_apply, bind_of_ok (onChain_of_ok passed), modify_bind_apply]
  rfl

/-- Whether a share was mined at one of the heights on a displaced parent. -/
def displaced
    (canonicalParent : UInt64 → Hash256)
    (heights : List UInt64)
    (trustedWork : P2pTrustedWorkRegistry)
    (share : Share) :
    Bool :=
  share.zanoHeight ∈ heights ∧
    (trustedWork.findZanoParentHash share.zanoHeight share.miningHeaderHash
      share.parentId).any (· ≠ canonicalParent share.zanoHeight)

/-- The first height and the others displace independently. -/
theorem displaced_cons
    {canonicalParent : UInt64 → Hash256}
    {height : UInt64}
    {rest : List UInt64}
    (fresh : height ∉ rest)
    {trustedWork : P2pTrustedWorkRegistry} :
    displaced canonicalParent (height :: rest) trustedWork =
      fun share =>
        minedOnDisplacedParent height (canonicalParent height) trustedWork
            share ||
          displaced canonicalParent rest
            (trustedWork.eraseZanoParentMismatch height
              (canonicalParent height)).2 share := by
  funext share
  by_cases here : share.zanoHeight = height
  · subst here
    simp [displaced, minedOnDisplacedParent, fresh]
  · have unchanged :
        (trustedWork.eraseZanoParentMismatch height
          (canonicalParent height)).2.findZanoParentHash share.zanoHeight
            share.miningHeaderHash share.parentId =
          trustedWork.findZanoParentHash share.zanoHeight
            share.miningHeaderHash share.parentId := by
      unfold P2pTrustedWorkRegistry.findZanoParentHash
      rw [P2pTrustedWorkRegistry.getElem?_eraseZanoParentMismatch_of_ne here]
    simp [displaced, minedOnDisplacedParent, here, unchanged]

/-- What reconciling a list of heights does. -/
structure ReconciledParents
    (canonicalParent : UInt64 → Hash256)
    (heights : List UInt64)
    (state final : ConsensusState) :
    Prop where
  registry :
    ∀ (key : TrustedWorkKey) (entry : TrustedWorkEntry),
      final.trustedWork.contexts[key]? = some entry ↔
        state.trustedWork.contexts[key]? = some entry ∧
          ¬ (key.zanoHeight ∈ heights ∧
            entry.zanoParentHash.any
              (· ≠ canonicalParent key.zanoHeight) = true)
  chain :
    ShareChain.Reduced
      (fun id =>
        ¬ ShareChain.Clear state.chain.connected
          (displaced canonicalParent heights state.trustedWork) id)
      state.chain final.chain
  reset :
    (∃ root,
      ShareChain.StaleAt state.chain.connected
        (displaced canonicalParent heights state.trustedWork) root) →
      final.expected = {}
  kept :
    (¬ ∃ root,
      ShareChain.StaleAt state.chain.connected
        (displaced canonicalParent heights state.trustedWork) root) →
      final.expected = state.expected

theorem reconcileCanonicalParents_ok
    {canonicalParent : UInt64 → Hash256}
    {heights : List UInt64}
    (distinct : heights.Nodup)
    (linked : ShareChain.HeightLinked state.chain.connected) :
    ∃ final,
      reconcileCanonicalParents canonicalParent heights state =
        .ok () final ∧
      ReconciledParents canonicalParent heights state final := by
  induction heights generalizing state with
  | nil =>
      have none :
          ¬ ∃ root,
            ShareChain.StaleAt state.chain.connected
              (displaced canonicalParent [] state.trustedWork) root := by
        rintro ⟨root, entry, _, isStale⟩
        simp [displaced] at isStale
      refine ⟨state, rfl, by simp, .refl ?_,
        fun some => absurd some none, fun _ => rfl⟩
      intro id entry _ dirty
      exact dirty fun root isStale _ => none ⟨root, isStale⟩
  | cons height rest inductionHypothesis =>
      obtain ⟨fresh, distinctRest⟩ := List.nodup_cons.mp distinct
      obtain ⟨result, middle, reconciled, reduced, registry, expected, _,
        counts⟩ :=
        @reconcile_ok state
          (minedOnDisplacedParent height (canonicalParent height))
          (P2pTrustedWorkRegistry.eraseZanoParentMismatch height
            (canonicalParent height))
          (fun result => result.prunedConnectedShares ≠ 0) linked
      obtain ⟨final, passed, later⟩ :=
        inductionHypothesis distinctRest
          (reduced.heightLinked ShareChain.clear_closed linked)
      have stales := @displaced_cons canonicalParent height rest fresh
        state.trustedWork
      rw [← registry] at stales
      have calm :
          (¬ ∃ root,
            ShareChain.StaleAt state.chain.connected
              (minedOnDisplacedParent height (canonicalParent height)
                state.trustedWork) root) →
            middle.chain = state.chain ∧
              middle.expected = state.expected := by
        intro none
        refine ⟨reduced.unchanged fun id entry _ dirty =>
          dirty fun root isStale _ => none ⟨root, isStale⟩, ?_⟩
        rw [expected, if_neg]
        simpa using (not_congr counts).mpr none
      refine ⟨final, ?_, ?_, ?_, ?_, ?_⟩
      · rw [reconcileCanonicalParents]
        exact (bind_of_ok reconciled).trans passed
      · intro key entry
        rw [later.registry, registry,
          P2pTrustedWorkRegistry.eraseZanoParentMismatch,
          P2pTrustedWorkRegistry.getElem?_eraseStale]
        by_cases here : key.zanoHeight = height
        · subst here
          simp [fresh]
        · simp [here]
      · rw [stales]
        exact (reduced.trans later.chain).congr fun id _ _ =>
          ShareChain.clear_reduced reduced id
      · rw [stales]
        rintro ⟨root, entry, found, isStale⟩
        by_cases early :
            ∃ root,
              ShareChain.StaleAt state.chain.connected
                (minedOnDisplacedParent height (canonicalParent height)
                  state.trustedWork) root
        · have reset : middle.expected = {} := by
            rw [expected, if_pos]
            simpa using counts.mpr early
          by_cases late :
              ∃ root,
                ShareChain.StaleAt middle.chain.connected
                  (displaced canonicalParent rest middle.trustedWork) root
          · exact later.reset late
          · rw [later.kept late, reset]
        · apply later.reset
          rw [(calm early).1]
          refine ⟨root, entry, found, ?_⟩
          rcases Bool.or_eq_true_iff.mp isStale with first | second
          · exact absurd ⟨root, entry, found, first⟩ early
          · exact second
      · rw [stales]
        intro none
        have early :
            ¬ ∃ root,
              ShareChain.StaleAt state.chain.connected
                (minedOnDisplacedParent height (canonicalParent height)
                  state.trustedWork) root := by
          rintro ⟨root, entry, found, isStale⟩
          exact none ⟨root, entry, found,
            Bool.or_eq_true_iff.mpr (.inl isStale)⟩
        obtain ⟨sameChain, sameExpected⟩ := calm early
        rw [later.kept, sameExpected]
        rintro ⟨root, entry, found, isStale⟩
        rw [sameChain] at found
        exact none ⟨root, entry, found,
          Bool.or_eq_true_iff.mpr (.inr isStale)⟩

theorem displaced_congr
    {canonicalParent : UInt64 → Hash256}
    {heights other : List UInt64}
    (same : ∀ height, height ∈ heights ↔ height ∈ other)
    (trustedWork : P2pTrustedWorkRegistry) :
    displaced canonicalParent heights trustedWork =
      displaced canonicalParent other trustedWork := by
  funext share
  simp only [displaced, same]

/-- The final state depends on the set of heights only. -/
theorem ReconciledParents.unique
    {canonicalParent : UInt64 → Hash256}
    {heights other : List UInt64}
    {first second : ConsensusState}
    (same : ∀ height, height ∈ heights ↔ height ∈ other)
    (reconciled : ReconciledParents canonicalParent heights state first)
    (again : ReconciledParents canonicalParent other state second) :
    first = second := by
  have stales := @displaced_congr canonicalParent heights other same
    state.trustedWork
  have chains : first.chain = second.chain := by
    have reduced := reconciled.chain
    rw [stales] at reduced
    exact reduced.unique again.chain
  have registries : first.trustedWork = second.trustedWork := by
    have contexts :
        first.trustedWork.contexts = second.trustedWork.contexts := by
      apply Std.ExtTreeMap.ext_getElem?
      intro key
      apply Option.ext
      intro entry
      rw [reconciled.registry, again.registry, same]
    obtain ⟨_, ⟨_⟩, _⟩ := first
    obtain ⟨_, ⟨_⟩, _⟩ := second
    simpa using contexts
  have expectations : first.expected = second.expected := by
    by_cases changed :
        ∃ root,
          ShareChain.StaleAt state.chain.connected
            (displaced canonicalParent other state.trustedWork) root
    · rw [again.reset changed, reconciled.reset (stales ▸ changed)]
    · rw [again.kept changed, reconciled.kept (stales ▸ changed)]
  obtain ⟨_, _, _⟩ := first
  obtain ⟨_, _, _⟩ := second
  simp only at chains registries expectations
  rw [chains, registries, expectations]

/-- A share above the maximum height, or mined on a displaced parent. -/
def StaleAfterReorg
    (canonicalParent : UInt64 → Hash256)
    (maximumWorkHeight : UInt64)
    (trustedWork : P2pTrustedWorkRegistry)
    (share : Share) :
    Prop :=
  maximumWorkHeight < share.zanoHeight ∨
    (share.zanoHeight ≠ 0 ∧ share.zanoHeight ≤ maximumWorkHeight ∧
      ∃ recorded,
        trustedWork.findZanoParentHash share.zanoHeight
            share.miningHeaderHash share.parentId = some recorded ∧
          recorded ≠ canonicalParent share.zanoHeight)

/-- The stale shares of both parts of a reconciliation. -/
theorem displaced_or_above
    {canonicalParent : UInt64 → Hash256}
    {maximumWorkHeight : UInt64}
    {heights : List UInt64}
    {trustedWork : P2pTrustedWorkRegistry}
    (audited :
      ∀ height, height ∈ heights ↔
        height ∈ auditedHeights maximumWorkHeight trustedWork)
    (share : Share) :
    (displaced canonicalParent heights trustedWork share ||
        decide (maximumWorkHeight < share.zanoHeight)) = true ↔
      StaleAfterReorg canonicalParent maximumWorkHeight trustedWork share := by
  rw [Bool.or_eq_true_iff, decide_eq_true_iff, or_comm]
  apply or_congr Iff.rfl
  simp only [displaced, decide_eq_true_iff, audited, auditedHeights,
    List.mem_filter, Bool.decide_and, Bool.and_eq_true,
    P2pTrustedWorkRegistry.provenanceZanoHeights_spec.2]
  constructor
  · rintro ⟨⟨_, nonzero, atMost⟩, mismatch⟩
    obtain ⟨recorded, found, differs⟩ := (Option.any_eq_true _ _).mp mismatch
    exact ⟨nonzero, atMost, recorded, found, of_decide_eq_true differs⟩
  · rintro ⟨nonzero, atMost, recorded, found, differs⟩
    obtain ⟨entry, stored, provenance⟩ := Option.bind_eq_some_iff.mp found
    refine ⟨⟨⟨_, entry, stored, by rw [provenance]; rfl, rfl⟩, nonzero,
      atMost⟩, ?_⟩
    exact (Option.any_eq_true _ _).mpr
      ⟨recorded, found, decide_eq_true differs⟩

theorem mem_auditedHeights
    {maximumWorkHeight height : UInt64}
    {trustedWork : P2pTrustedWorkRegistry} :
    height ∈ auditedHeights maximumWorkHeight trustedWork ↔
      (∃ (key : TrustedWorkKey) (entry : TrustedWorkEntry),
        trustedWork.contexts[key]? = some entry ∧
        entry.zanoParentHash.isSome = true ∧
        key.zanoHeight = height) ∧
      height ≠ 0 ∧ height ≤ maximumWorkHeight := by
  rw [auditedHeights, List.mem_filter, decide_eq_true_iff,
    P2pTrustedWorkRegistry.provenanceZanoHeights_spec.2]

/-- Which entries survive both revocations. -/
theorem kept_iff
    {canonicalParent : UInt64 → Hash256}
    {maximumWorkHeight : UInt64}
    {trustedWork : P2pTrustedWorkRegistry}
    {key : TrustedWorkKey}
    {entry : TrustedWorkEntry}
    (stored : trustedWork.contexts[key]? = some entry) :
    (¬ (((∃ (other : TrustedWorkKey) (found : TrustedWorkEntry),
            trustedWork.contexts[other]? = some found ∧
            found.zanoParentHash.isSome = true ∧
            other.zanoHeight = key.zanoHeight) ∧
          key.zanoHeight ≠ 0 ∧ key.zanoHeight ≤ maximumWorkHeight) ∧
        entry.zanoParentHash.any
          (· ≠ canonicalParent key.zanoHeight) = true) ∧
      key.zanoHeight ≤ maximumWorkHeight) ↔
    key.zanoHeight ≤ maximumWorkHeight ∧
      (entry.zanoParentHash = none ∨ key.zanoHeight = 0 ∨
        entry.zanoParentHash = some (canonicalParent key.zanoHeight)) := by
  rw [and_comm]
  apply and_congr_right
  intro atMost
  cases recorded : entry.zanoParentHash with
  | none => simp
  | some parent =>
      have provenance :
          ∃ (other : TrustedWorkKey) (found : TrustedWorkEntry),
            trustedWork.contexts[other]? = some found ∧
            found.zanoParentHash.isSome = true ∧
            other.zanoHeight = key.zanoHeight :=
        ⟨key, entry, stored, by rw [recorded]; rfl, rfl⟩
      simp only [provenance, atMost, true_and, and_true, Option.any_some,
        decide_eq_true_iff, reduceCtorEq, false_or, Option.some.injEq, ne_eq]
      tauto

/-- What a reconciliation leaves of the registry and of the chain. -/
structure ReconciledReorg
    (canonicalParent : UInt64 → Hash256)
    (maximumWorkHeight : UInt64)
    (state final : ConsensusState) :
    Prop where
  registry :
    ∀ (key : TrustedWorkKey) (entry : TrustedWorkEntry),
      final.trustedWork.contexts[key]? = some entry ↔
        state.trustedWork.contexts[key]? = some entry ∧
        key.zanoHeight ≤ maximumWorkHeight ∧
        (entry.zanoParentHash = none ∨ key.zanoHeight = 0 ∨
          entry.zanoParentHash = some (canonicalParent key.zanoHeight))
  survivors :
    ∀ (id : ShareId) (entry : ConnectedShare),
      final.chain.connected[id]? = some entry ↔
        state.chain.connected[id]? = some entry ∧
        ∃ below,
          Branch state.chain.connected entry.share.parentId below ∧
          ∀ share ∈ entry.share :: below,
            ¬ StaleAfterReorg canonicalParent maximumWorkHeight
              state.trustedWork share
  otherwise :
    final.chain =
      { state.chain with
        connected := final.chain.connected
        bestTipId := final.chain.bestTipId }
  bestTip : IsBestTip final.chain.connected final.chain.bestTipId

end Reconcile

/--
A reconciliation of the audited heights keeps exactly the trusted work and the
shares that agree with canonical history, and the order of the heights does not
matter.
-/
theorem reconcileReorg_exact
    {backend : Backend}
    {state : ConsensusState}
    (invariant :
      ShareChain.RepresentationInvariant backend state.chain)
    (canonicalParent : UInt64 → Hash256)
    (maximumWorkHeight : UInt64)
    {heights : List UInt64}
    (audited :
      heights.Perm (auditedHeights maximumWorkHeight state.trustedWork)) :
    ∃ final,
      reconcileReorg canonicalParent heights maximumWorkHeight state =
        .ok () final ∧
      ReconciledReorg canonicalParent maximumWorkHeight state final ∧
      ∀ other : List UInt64,
        other.Perm heights →
          reconcileReorg canonicalParent other maximumWorkHeight state =
            .ok () final := by
  have linked := invariant.heightLinked
  have distinct : heights.Nodup :=
    audited.nodup_iff.mpr
      (P2pTrustedWorkRegistry.provenanceZanoHeights_spec.1.filter _)
  have sameHeights :
      ∀ height, height ∈ heights ↔
        height ∈ auditedHeights maximumWorkHeight state.trustedWork :=
    fun _ => audited.mem_iff
  obtain ⟨middle, passed, reconciled⟩ :=
    @reconcileCanonicalParents_ok state canonicalParent heights distinct linked
  obtain ⟨result, final, cut, reduced, registry, _, _, _⟩ :=
    @reconcile_ok middle
      (fun _ share => decide (maximumWorkHeight < share.zanoHeight))
      (P2pTrustedWorkRegistry.eraseZanoHeightsAbove maximumWorkHeight)
      (fun result =>
        decide (result.prunedConnectedShares ≠ 0 ∨
          result.revokedTrustedWork ≠ 0))
      (reconciled.chain.heightLinked ShareChain.clear_closed linked)
  have finished :
      ∀ order,
        reconcileCanonicalParents canonicalParent order state =
            .ok () middle →
          reconcileReorg canonicalParent order maximumWorkHeight state =
            .ok () final := by
    intro order ordered
    unfold reconcileReorg
    rw [bind_of_ok ordered]
    exact bind_of_ok cut
  refine ⟨final, finished heights passed, ?_, ?_⟩
  · have whole :
        ShareChain.Reduced
          (fun id =>
            ¬ ShareChain.Clear state.chain.connected
              (fun share =>
                displaced canonicalParent heights state.trustedWork share ||
                  decide (maximumWorkHeight < share.zanoHeight)) id)
          state.chain final.chain :=
      (reconciled.chain.trans reduced).congr fun id _ _ =>
        ShareChain.clear_reduced reconciled.chain id
    refine ⟨?_, ?_, whole.shape, ?_⟩
    · intro key entry
      rw [registry, P2pTrustedWorkRegistry.eraseZanoHeightsAbove,
        P2pTrustedWorkRegistry.getElem?_eraseStale, reconciled.registry,
        and_assoc]
      apply and_congr_right
      intro stored
      rw [sameHeights, mem_auditedHeights, decide_eq_false_iff_not,
        UInt64.not_lt]
      exact kept_iff stored
    · intro id entry
      rw [whole.lookup, not_not]
      apply and_congr_right
      intro found
      obtain ⟨below, isBranch, _⟩ := invariant.exactWork id entry found
      rw [ShareChain.clear_iff_path found isBranch]
      have paths :
          ∀ share,
            (displaced canonicalParent heights state.trustedWork share ||
                decide (maximumWorkHeight < share.zanoHeight)) = false ↔
              ¬ StaleAfterReorg canonicalParent maximumWorkHeight
                state.trustedWork share := by
        intro share
        rw [← displaced_or_above sameHeights, Bool.not_eq_true]
      simp only [paths]
      constructor
      · intro fresh
        exact ⟨below, isBranch, fresh⟩
      · rintro ⟨other, otherBranch, fresh⟩
        rw [isBranch.unique otherBranch]
        exact fresh
    · exact whole.isBestTip invariant.isBestTip
  · intro other permuted
    obtain ⟨otherMiddle, otherPassed, otherReconciled⟩ :=
      @reconcileCanonicalParents_ok state canonicalParent other
        (permuted.nodup_iff.mpr distinct) linked
    obtain rfl : otherMiddle = middle :=
      otherReconciled.unique (fun _ => permuted.mem_iff) reconciled
    exact finished other otherPassed

/-- The sample chain; its second share was mined on the parent 12. -/
def sampleReorg : ConsensusState where
  chain := finalState (runOps sampleBackend sampleOps sampleStart)
  trustedWork := {
    contexts :=
      (Std.ExtTreeMap.empty.insert
        (P2pTrustedWorkRegistry.keyOf sampleContext 0)
        { context := sampleContext, zanoParentHash := some 11 }).insert
        (P2pTrustedWorkRegistry.keyOf sampleContext 1)
        { context := sampleContext, zanoParentHash := some 12 } }

/-- With the canonical parent 11 the root is the only share left. -/
theorem sampleReorg_reconciled :
    (finalState (reconcileReorg (fun _ => 11) [7] 9
        sampleReorg)).chain.connectedShareIds = [1] ∧
      ReconciledReorg (fun _ => 11) 9 sampleReorg
        (finalState (reconcileReorg (fun _ => 11) [7] 9 sampleReorg)) := by
  have ran :
      runOps sampleBackend sampleOps sampleStart =
        .ok () (finalState (runOps sampleBackend sampleOps sampleStart)) :=
    eq_ok_of_succeeds (by decide +kernel)
  have fresh : ShareChain.Fresh sampleBackend sampleStart :=
    .inr ⟨sampleParameters, sampleStart_built⟩
  have invariant :
      ShareChain.RepresentationInvariant sampleBackend sampleReorg.chain := by
    simp only [sampleReorg]
    exact (runOps_wellFormed fresh.wellFormed ran).1.representationInvariant
  obtain ⟨final, reconciled, exact, _⟩ :=
    @reconcileReorg_exact sampleBackend sampleReorg invariant (fun _ => 11) 9
      [7] (by decide +kernel)
  refine ⟨by decide +kernel, ?_⟩
  rw [reconciled]
  exact exact

end ZanoP2pool
