import ZanoP2pool.ShareChainAdmission

namespace ZanoP2pool

open Foundation

/-!
# The orphan index and complete promotion

While children are being promoted, the orphans taken out of the index are held
in the loops of the recursion.  The invariant names them explicitly as the
hand: everything else is indexed under its own parent, and no orphan outside
the hand waits for a connected parent.  When an insertion ends normally the
hand is empty, so nothing is left behind.
-/

namespace ShareChain

/-- An orphan with this identity waits for this parent. -/
def WaitsFor
    (chain : ShareChain)
    (id parentId : ShareId) :
    Prop :=
  ∃ orphan,
    chain.orphans[id]? = some orphan ∧ orphan.share.parentId = parentId

/--
The index invariant while `hand` is being promoted.  `Focus` tells which
parents were connected since their children were last looked up.
-/
structure Indexed
    (chain : ShareChain)
    (hand : List ShareId)
    (focus : ShareId → Prop) :
    Prop where
  exact :
    ∀ parentId id,
      id ∈ chain.listed parentId ↔
        id ∉ hand ∧ chain.WaitsFor id parentId
  nodup : ∀ parentId, (chain.listed parentId).Nodup
  ready :
    ∀ id parentId,
      chain.WaitsFor id parentId →
      chain.contains parentId = true →
        id ∈ hand ∨ focus parentId

/-- The index lists exactly the orphans, and none of them could connect. -/
def Settled (chain : ShareChain) : Prop :=
  Indexed chain [] fun _ => False

section Lookup

variable {chain : ShareChain}

/-- Buffering appends the record to the list of its parent. -/
theorem listed_buffer
    (record : OrphanShare)
    (parentId : ShareId) :
    (chain.buffer record).listed parentId =
      if parentId = record.share.parentId then
        chain.listed parentId ++ [record.id]
      else chain.listed parentId := by
  unfold listed buffer indexOrphan
  rw [Std.ExtTreeMap.getElem?_insert]
  by_cases same : parentId = record.share.parentId
  · simp [same]
  · simp [same, Ne.symm same]

/-- Discarding an orphan removes exactly its own wait. -/
theorem waitsFor_discard
    {erased id parentId : ShareId} :
    (chain.discard erased).WaitsFor id parentId ↔
      id ≠ erased ∧ chain.WaitsFor id parentId := by
  simp only [WaitsFor, discard, getElem?_erase_iff]
  constructor
  · rintro ⟨orphan, ⟨other, found⟩, parent⟩
    exact ⟨other, orphan, found, parent⟩
  · rintro ⟨other, orphan, found, parent⟩
    exact ⟨orphan, ⟨other, found⟩, parent⟩

end Lookup

section Promotion

variable {chain : ShareChain} {hand : List ShareId}
variable {focus : ShareId → Prop}

/-- Holding an identity that is no orphan makes no difference. -/
theorem indexed_cons_absent
    {id : ShareId}
    (absent : chain.orphans[id]? = none) :
    Indexed chain (id :: hand) focus ↔ Indexed chain hand focus := by
  have waiterHeld :
      ∀ {other parentId : ShareId},
        chain.WaitsFor other parentId →
          (other ∈ id :: hand ↔ other ∈ hand) := by
    rintro other parentId ⟨orphan, found, _⟩
    have different : other ≠ id := by
      rintro rfl
      simp [absent] at found
    simp [different]
  constructor
  · intro indexed
    refine ⟨?_, indexed.nodup, ?_⟩
    · intro parentId other
      rw [indexed.exact]
      exact and_congr_left fun waits => not_congr (waiterHeld waits)
    · intro other parentId waits connected
      exact (indexed.ready other parentId waits connected).imp_left
        (waiterHeld waits).mp
  · intro indexed
    refine ⟨?_, indexed.nodup, ?_⟩
    · intro parentId other
      rw [indexed.exact]
      exact and_congr_left fun waits => not_congr (waiterHeld waits).symm
    · intro other parentId waits connected
      exact (indexed.ready other parentId waits connected).imp_left
        (waiterHeld waits).mpr

/-- A held orphan can be discarded. -/
theorem Indexed.discard
    {id : ShareId}
    (indexed : Indexed chain (id :: hand) focus) :
    Indexed (chain.discard id) hand focus := by
  have remaining : Indexed (chain.discard id) (id :: hand) focus := by
    constructor
    case exact =>
      intro parentId other
      rw [waitsFor_discard]
      have before := indexed.exact parentId other
      constructor
      · intro listed
        obtain ⟨notHeld, waits⟩ := before.mp listed
        exact ⟨notHeld, fun same => notHeld (by simp [same]), waits⟩
      · rintro ⟨notHeld, _, waits⟩
        exact before.mpr ⟨notHeld, waits⟩
    case nodup => exact indexed.nodup
    case ready =>
      intro other parentId waits connected
      exact indexed.ready other parentId (waitsFor_discard.mp waits).2
        connected
  refine (indexed_cons_absent ?_).mp remaining
  simp [ShareChain.discard]

/-- A held orphan can be attached; its own children come into focus. -/
theorem Indexed.attach
    {record : OrphanShare}
    (indexed : Indexed chain (record.id :: hand) focus)
    (branch : List Share) :
    Indexed (chain.attach branch record) hand
      (fun parentId => parentId = record.id ∨ focus parentId) := by
  have discarded := indexed.discard
  constructor
  case exact => exact discarded.exact
  case nodup => exact discarded.nodup
  case ready =>
    intro id parentId waits connected
    rcases contains_attach.mp connected with same | before
    · exact .inr (.inl same)
    · rcases discarded.ready id parentId waits before with held | focused
      · exact .inl held
      · exact .inr (.inr focused)

/-- Taking a parent out of the index moves its list into the hand. -/
theorem Indexed.unindex
    {parentId : ShareId}
    (indexed :
      Indexed chain hand fun other => other = parentId ∨ focus other)
    {children : List ShareId}
    (sameMembers : ∀ id, id ∈ children ↔ id ∈ chain.listed parentId) :
    Indexed (chain.unindex parentId) (children ++ hand) focus := by
  constructor
  case exact =>
    intro other id
    rw [listed_unindex]
    have unchanged :
        (chain.unindex parentId).WaitsFor id other ↔
          chain.WaitsFor id other := Iff.rfl
    rw [unchanged, List.mem_append, sameMembers]
    by_cases same : other = parentId
    · subst other
      have here := indexed.exact parentId id
      simp only [if_true, List.not_mem_nil, false_iff, not_and, not_or]
      rintro ⟨notListed, notHeld⟩ waits
      exact notListed (here.mpr ⟨notHeld, waits⟩)
    · rw [if_neg same, indexed.exact other id]
      constructor
      · rintro ⟨notHeld, waits⟩
        refine ⟨?_, waits⟩
        rintro (listed | held)
        · obtain ⟨_, orphan, found, parent⟩ :=
            (indexed.exact parentId id).mp listed
          obtain ⟨orphan', found', parent'⟩ := waits
          rw [found] at found'
          cases found'
          exact same (parent'.symm.trans parent)
        · exact notHeld held
      · rintro ⟨notHeld, waits⟩
        exact ⟨fun held => notHeld (.inr held), waits⟩
  case nodup =>
    intro other
    rw [listed_unindex]
    split
    · exact List.nodup_nil
    · exact indexed.nodup other
  case ready =>
    intro id other waits connected
    rcases indexed.ready id other waits connected with held | same | focused
    · exact .inl (List.mem_append_right _ held)
    · subst other
      by_cases held : id ∈ hand
      · exact .inl (List.mem_append_right _ held)
      · exact .inl (List.mem_append_left _ ((sameMembers id).mpr
          ((indexed.exact parentId id).mpr ⟨held, waits⟩)))
    · exact .inr focused

/-- A parent with an empty list has no children left to look at. -/
theorem Indexed.unfocus
    {parentId : ShareId}
    (indexed :
      Indexed chain hand fun other => other = parentId ∨ focus other)
    (empty : chain.listed parentId = []) :
    Indexed chain hand focus := by
  refine ⟨indexed.exact, indexed.nodup, ?_⟩
  intro id other waits connected
  rcases indexed.ready id other waits connected with held | same | focused
  · exact .inl held
  · subst other
    by_cases held : id ∈ hand
    · exact .inl held
    · have listed := (indexed.exact parentId id).mpr ⟨held, waits⟩
      simp [empty] at listed
  · exact .inr focused

/-- A promotion step that ends normally keeps the index invariant. -/
def PromotesIndexed
    (depth : Nat)
    (promote : ShareId → ChainM Nat) :
    Prop :=
  ∀ ⦃chain final : ShareChain⦄ ⦃hand : List ShareId⦄
    ⦃focus : ShareId → Prop⦄ ⦃parentId : ShareId⦄ ⦃promoted : Nat⦄,
    Standing chain →
    chain.orphansByParent.size ≤ depth →
    Indexed chain hand (fun other => other = parentId ∨ focus other) →
    promote parentId chain = .ok promoted final →
      Standing final ∧
      final.orphansByParent.size ≤ chain.orphansByParent.size ∧
      Indexed final hand focus

/-- The loop over the children of a parent empties its part of the hand. -/
theorem promoteEach_indexed
    {depth : Nat}
    {promote : ShareId → ChainM Nat}
    (promotes : PromotesIndexed depth promote)
    {children : List ShareId}
    {final : ShareChain}
    {promoted : Nat}
    (standing : Standing chain)
    (bounded : chain.orphansByParent.size ≤ depth)
    (indexed : Indexed chain (children ++ hand) focus)
    (ran : promoteEach promote children chain = .ok promoted final) :
    Standing final ∧
      final.orphansByParent.size ≤ chain.orphansByParent.size ∧
      Indexed final hand focus := by
  induction children generalizing chain promoted with
  | nil =>
      cases ran
      exact ⟨standing, le_refl _, indexed⟩
  | cons childId rest inductionHypothesis =>
      unfold promoteEach at ran
      rw [get_bind_apply] at ran
      cases buffered : chain.orphans[childId]? with
      | none =>
          rw [buffered] at ran
          exact inductionHypothesis standing bounded
            ((indexed_cons_absent buffered).mp indexed) ran
      | some orphan =>
          have fresh := standing.disjoint buffered
          have outcome :=
            @connectShare_outcome chain { orphan with id := childId } standing
              fresh
          rw [buffered] at ran
          obtain ⟨reason, middle, connected, continued⟩ := bind_eq_ok.mp ran
          simp only at outcome
          rw [connected] at outcome
          rw [modify_bind_apply] at continued
          cases outcome with
          | refused isBranch judged refusal =>
              rw [if_neg refusal] at continued
              have finished :=
                inductionHypothesis (standing.discard childId) bounded
                  indexed.discard continued
              exact finished
          | @linked branch isBranch judged =>
              rw [if_pos rfl] at continued
              obtain ⟨deeper, inner, promotedInner, afterInner⟩ :=
                bind_eq_ok.mp continued
              obtain ⟨later, outer, promotedLater, finished⟩ :=
                bind_eq_ok.mp afterInner
              cases finished
              have attached :=
                @Standing.attach chain standing branch
                  { orphan with id := childId } fresh isBranch
                  (recordVerdict_eq_ok.mp judged).2
              have held :
                  Indexed
                    (chain.attach branch { orphan with id := childId })
                    (rest ++ hand)
                    (fun parentId => parentId = childId ∨ focus parentId) :=
                Indexed.attach indexed branch
              obtain ⟨innerStanding, innerSize, innerIndexed⟩ :=
                promotes attached bounded held promotedInner
              obtain ⟨outerStanding, outerSize, outerIndexed⟩ :=
                inductionHypothesis innerStanding (le_trans innerSize bounded)
                  innerIndexed promotedLater
              exact ⟨outerStanding, le_trans outerSize innerSize,
                outerIndexed⟩

/-- A parent that is not in the index has nothing listed. -/
theorem listed_of_absent
    {parentId : ShareId}
    (absent : chain.orphansByParent[parentId]? = none) :
    chain.listed parentId = [] := by
  simp [listed, absent]

/-- Recursive promotion never runs out of depth and empties its hand. -/
theorem promoteChildrenUpTo_indexed
    (depth : Nat) :
    PromotesIndexed depth (promoteChildrenUpTo depth) := by
  induction depth with
  | zero =>
      intro chain final hand focus parentId promoted standing bounded indexed
        ran
      cases ran
      have absent : chain.orphansByParent[parentId]? = none := by
        rw [Option.eq_none_iff_forall_ne_some]
        intro childIds present
        have positive := size_pos_of_present present
        omega
      exact ⟨standing, le_refl _, indexed.unfocus (listed_of_absent absent)⟩
  | succ depth inductionHypothesis =>
      intro chain final hand focus parentId promoted standing bounded indexed
        ran
      unfold promoteChildrenUpTo at ran
      rw [get_bind_apply] at ran
      cases entry : chain.orphansByParent[parentId]? with
      | none =>
          rw [entry] at ran
          cases ran
          exact ⟨standing, le_refl _,
            indexed.unfocus (listed_of_absent entry)⟩
      | some childIds =>
          rw [entry] at ran
          simp only [set_bind_apply] at ran
          have members :
              ∀ id, id ∈ childIds.insertionSort (· ≤ ·) ↔
                id ∈ chain.listed parentId := by
            intro id
            rw [List.mem_insertionSort]
            simp [listed, entry]
          have smaller := size_erase_of_present entry
          change (chain.unindex parentId).orphansByParent.size + 1 = _
            at smaller
          obtain ⟨finalStanding, finalSize, finalIndexed⟩ :=
            promoteEach_indexed inductionHypothesis
              (standing.unindex parentId) (by omega)
              (indexed.unindex members) ran
          exact ⟨finalStanding, by omega, finalIndexed⟩

/-- The invariant only reads the orphans, the index and what is connected. -/
theorem Indexed.congr
    (indexed : Indexed chain hand focus)
    {later : ShareChain}
    (sameOrphans : later.orphans = chain.orphans)
    (sameIndex : later.orphansByParent = chain.orphansByParent)
    (noneConnected :
      ∀ id, later.contains id = true → chain.contains id = true) :
    Indexed later hand focus := by
  have sameWaits :
      ∀ id parentId, later.WaitsFor id parentId ↔ chain.WaitsFor id parentId :=
    fun id parentId => by simp [WaitsFor, sameOrphans]
  have sameListed :
      ∀ parentId, later.listed parentId = chain.listed parentId :=
    fun parentId => by simp [listed, sameIndex]
  constructor
  case exact =>
    intro parentId id
    rw [sameListed, sameWaits]
    exact indexed.exact parentId id
  case nodup =>
    intro parentId
    rw [sameListed]
    exact indexed.nodup parentId
  case ready =>
    intro id parentId waits connected
    exact indexed.ready id parentId ((sameWaits id parentId).mp waits)
      (noneConnected parentId connected)

end Promotion

section Insertion

variable {backend : Backend} {chain : ShareChain}

/-- The empty chain has nothing waiting. -/
theorem Settled.empty
    (policy : Option DifficultyPolicy)
    (parameterId : Option Hash256) :
    Settled { difficultyPolicy := policy, parameterId := parameterId } where
  exact := by simp [listed, WaitsFor]
  nodup := by simp [listed]
  ready := by simp [WaitsFor]

/-- Buffering a record whose parent is missing keeps the index exact. -/
theorem Settled.buffer
    (settled : Settled chain)
    {record : OrphanShare}
    (notBuffered : chain.orphans[record.id]? = none)
    (missing : chain.connected[record.share.parentId]? = none) :
    Settled (chain.buffer record) := by
  have waits :
      ∀ id parentId,
        (chain.buffer record).WaitsFor id parentId ↔
          (id = record.id ∧ parentId = record.share.parentId) ∨
            chain.WaitsFor id parentId := by
    intro id parentId
    constructor
    · rintro ⟨orphan, found, parent⟩
      rcases (getElem?_insert_fresh notBuffered _).mp found with
        ⟨rfl, rfl⟩ | present
      · exact .inl ⟨rfl, parent.symm⟩
      · exact .inr ⟨orphan, present, parent⟩
    · rintro (⟨rfl, rfl⟩ | ⟨orphan, found, parent⟩)
      · exact ⟨record,
          (getElem?_insert_fresh notBuffered _).mpr (.inl ⟨rfl, rfl⟩), rfl⟩
      · exact ⟨orphan,
          (getElem?_insert_fresh notBuffered _).mpr (.inr found), parent⟩
  constructor
  case exact =>
    intro parentId id
    have before := settled.exact parentId id
    rw [waits, listed_buffer]
    by_cases same : parentId = record.share.parentId
    · rw [if_pos same, List.mem_append, before, List.mem_singleton]
      simp [same, or_comm]
    · rw [if_neg same, before]
      simp [same]
  case nodup =>
    intro parentId
    rw [listed_buffer]
    split
    · refine (settled.nodup parentId).append (List.nodup_singleton _) ?_
      rw [List.disjoint_singleton]
      intro listed
      obtain ⟨_, orphan, found, _⟩ :=
        (settled.exact parentId record.id).mp listed
      simp [notBuffered] at found
    · exact settled.nodup parentId
  case ready =>
    intro id parentId waiting connected
    rcases (waits id parentId).mp waiting with ⟨_, rfl⟩ | before
    · obtain ⟨parent, found⟩ := contains_iff_getElem?.mp connected
      have absent : chain.connected[record.share.parentId]? = some parent :=
        found
      simp [missing] at absent
    · exact settled.ready id parentId before connected

/-- Connecting a record with all it promotes leaves nothing promotable. -/
theorem Settled.promoted
    (settled : Settled chain)
    (standing : Standing chain)
    {record : OrphanShare}
    (fresh : chain.connected[record.id]? = none)
    (notBuffered : chain.orphans[record.id]? = none)
    {branch : List Share}
    (isBranch : Branch chain.connected record.share.parentId branch)
    (admitted :
      branchVerdict chain.difficultyPolicy branch record.share
        record.enforceSidechainDifficulty = .ok .none)
    {count : Nat}
    {final : ShareChain}
    (promoted :
      promoteChildren record.id (chain.attach branch record) =
        .ok count final) :
    Settled final := by
  have held := (indexed_cons_absent notBuffered).mpr settled
  exact (promoteChildrenUpTo_indexed _
    (standing.attach fresh isBranch admitted) (le_refl _)
    (held.attach branch) promoted).2.2

/-- An insertion that ends normally leaves nothing promotable behind. -/
theorem AddOutcome.settled
    {record : OrphanShare}
    {value : AddShareResult}
    {final : ShareChain}
    (standing : Standing chain)
    (settled : Settled chain)
    (outcome : AddOutcome backend chain record (.ok value final)) :
    Settled final := by
  cases outcome with
  | duplicate _ => exact settled
  | malformed _ _ _ _ => exact settled
  | buffered _ notBuffered _ _ missing =>
      exact settled.buffer notBuffered missing
  | refused _ _ _ _ _ _ => exact settled
  | connected fresh notBuffered _ isBranch judged promoted =>
      exact settled.promoted standing fresh notBuffered isBranch judged
        promoted

/-- Between calls the index lists orphans under their own parents. -/
theorem Settled.listedByParent
    (settled : Settled chain) :
    ListedByParent chain := by
  intro parentId id orphan member found
  obtain ⟨_, other, otherFound, parent⟩ :=
    (settled.exact parentId id).mp member
  rw [found] at otherFound
  cases otherFound
  exact parent

end Insertion

end ShareChain

end ZanoP2pool
