import ZanoP2pool.PplnsCredits
import ZanoP2pool.ShareChainInvariants
import ZanoP2pool.ShareCodec

namespace ZanoP2pool

open Foundation

/-!
# Correctness of the payout window

The walk of a window only depends on the shares of the branch it follows.  The
credited work of a branch is stated on the list of its shares: every included
share in full, except that the oldest one is clipped to what remains.
-/

/-- Difficulty of a share as a number. -/
def difficultyOf (share : Share) : Nat := share.shareDifficulty.toNat

/-- The newest shares with the work each is credited, newest first. -/
def creditedShares : Nat → List Share → List (Share × Nat)
  | _, [] => []
  | remaining, share :: older =>
      if remaining = 0 then []
      else
        (share, min (difficultyOf share) remaining) ::
          creditedShares (remaining - min (difficultyOf share) remaining)
            older

/-- The credited work of each included share, by miner. -/
def minerCredits (credits : List (Share × Nat)) : List (MinerId × Nat) :=
  credits.map fun credit => (credit.1.minerId, credit.2)

/-- The credit of an included share. -/
def shareCredit (credit : Share × Nat) : Credit where
  minerId := credit.1.minerId
  payout := credit.1.payout
  work := credit.2

@[simp] theorem creditWorks_shareCredit
    (credits : List (Share × Nat)) :
    creditWorks (credits.map shareCredit) = minerCredits credits := by
  simp [creditWorks, minerCredits, shareCredit]

/-- Shares whose payouts are bound to their miners without collisions. -/
structure BoundPayouts (backend : Backend) (shares : List Share) : Prop where
  bound :
    ∀ share ∈ shares, ∀ payout, share.payout = some payout →
      share.version = kShareVersion2 ∧
        share.minerId = minerIdFromPayout backend payout
  distinct :
    ∀ first ∈ shares, ∀ second ∈ shares, ∀ payout other,
      first.payout = some payout → second.payout = some other →
      first.minerId = second.minerId → payout = other

theorem BoundPayouts.subset
    {backend : Backend}
    {shares larger : List Share}
    (bound : BoundPayouts backend larger)
    (contained : ∀ share ∈ shares, share ∈ larger) :
    BoundPayouts backend shares where
  bound := fun share member => bound.bound share (contained share member)
  distinct := fun first firstMember second secondMember =>
    bound.distinct first (contained first firstMember) second
      (contained second secondMember)

/-- The credits of bound shares agree on their payouts. -/
theorem BoundPayouts.agreeing
    {backend : Backend}
    {credits : List (Share × Nat)}
    (bound : BoundPayouts backend (credits.map Prod.fst)) :
    AgreeingPayouts (credits.map shareCredit) := by
  intro first firstMember second secondMember
  obtain ⟨credit, member, rfl⟩ := List.mem_map.mp firstMember
  obtain ⟨other, otherMember, rfl⟩ := List.mem_map.mp secondMember
  exact bound.distinct credit.1 (List.mem_map.mpr ⟨credit, member, rfl⟩)
    other.1 (List.mem_map.mpr ⟨other, otherMember, rfl⟩)

/-- Merging the payout of a bound share never throws. -/
theorem mergePayoutIdentity_ok
    {backend : Backend}
    {share : Share}
    (bound :
      ∀ payout, share.payout = some payout →
        share.version = kShareVersion2 ∧
          share.minerId = minerIdFromPayout backend payout)
    {before : CreditedWork}
    (agrees :
      ∀ payout stored, share.payout = some payout →
        before.payout = some stored → stored = payout) :
    mergePayoutIdentity backend before share =
      .ok { before with payout := share.payout.or before.payout } := by
  unfold mergePayoutIdentity
  cases carried : share.payout with
  | none => rfl
  | some payout =>
      obtain ⟨version, bounded⟩ := bound payout carried
      have noConflict :
          ¬ (before.payout.isSome ∧ before.payout ≠ some payout) := by
        rintro ⟨stored, differs⟩
        obtain ⟨other, found⟩ := Option.isSome_iff_exists.mp stored
        exact differs (by rw [found, agrees payout other carried found])
      simp only
      rw [if_neg (by simp [version, bounded]), if_neg noConflict]
      rfl

/-- A merge that returns kept the payouts of the row and the share apart from none. -/
theorem mergePayoutIdentity_eq_ok
    {backend : Backend}
    {share : Share}
    {before merged : CreditedWork}
    (returned : mergePayoutIdentity backend before share = .ok merged) :
    merged = { before with payout := share.payout.or before.payout } ∧
      ∀ payout stored, share.payout = some payout →
        before.payout = some stored → stored = payout := by
  unfold mergePayoutIdentity at returned
  cases carried : share.payout with
  | none =>
      rw [carried] at returned
      cases returned
      exact ⟨rfl, by simp⟩
  | some payout =>
      simp only [carried] at returned
      split at returned
      · cases returned
      split at returned
      · cases returned
      rename_i _ noConflict
      cases returned
      refine ⟨rfl, ?_⟩
      rintro _ stored ⟨⟩ found
      by_contra differs
      exact noConflict ⟨by rw [found]; rfl, by simpa [found] using differs⟩

/-- Nothing is credited when nothing remains. -/
theorem creditedShares_zero
    (branch : List Share) :
    creditedShares 0 branch = [] := by
  cases branch <;> simp [creditedShares]

/-- Total difficulty of some shares. -/
def totalDifficulty (shares : List Share) : Nat :=
  (shares.map difficultyOf).sum

@[simp] theorem totalDifficulty_nil : totalDifficulty [] = 0 := rfl

@[simp] theorem totalDifficulty_cons
    (share : Share)
    (rest : List Share) :
    totalDifficulty (share :: rest) =
      difficultyOf share + totalDifficulty rest := by
  simp [totalDifficulty]

/-- The credited work is what was requested, as far as the branch has it. -/
theorem sum_creditedShares
    (requested : Nat)
    (branch : List Share) :
    ((creditedShares requested branch).map Prod.snd).sum =
      min requested (totalDifficulty branch) := by
  induction branch generalizing requested with
  | nil => simp [creditedShares]
  | cons share older inductionHypothesis =>
      by_cases nothing : requested = 0
      · simp [creditedShares, nothing]
      · simp only [creditedShares, if_neg nothing, List.map_cons,
          List.sum_cons, inductionHypothesis, totalDifficulty_cons]
        omega

/-- The credit at each position of a branch. -/
theorem creditedShares_getElem?
    (requested : Nat)
    (branch : List Share)
    (position : Nat) :
    (creditedShares requested branch)[position]? =
      if totalDifficulty (branch.take position) < requested then
        branch[position]?.map fun share =>
          (share, min (difficultyOf share)
            (requested - totalDifficulty (branch.take position)))
      else none := by
  induction branch generalizing requested position with
  | nil => simp [creditedShares]
  | cons share older inductionHypothesis =>
      by_cases nothing : requested = 0
      · simp [creditedShares, nothing]
      · rw [creditedShares, if_neg nothing]
        cases position with
        | zero => simp [Nat.pos_of_ne_zero nothing]
        | succ position =>
            rw [List.getElem?_cons_succ, inductionHypothesis,
              List.take_succ_cons, totalDifficulty_cons,
              List.getElem?_cons_succ]
            have sameTest :
                totalDifficulty (older.take position) <
                    requested - min (difficultyOf share) requested ↔
                  difficultyOf share + totalDifficulty (older.take position) <
                    requested := by
              omega
            by_cases within :
                difficultyOf share + totalDifficulty (older.take position) <
                  requested
            · rw [if_pos (sameTest.mpr within), if_pos within]
              congr 1
              funext other
              congr 2
              omega
            · rw [if_neg (mt sameTest.mp within), if_neg within]

/-- Number of shares of a branch that a request includes. -/
def includedCount (requested : Nat) (branch : List Share) : Nat :=
  (creditedShares requested branch).length

section Included

variable {requested : Nat} {branch : List Share}

/-- Fewer shares than are included do not reach the requested work. -/
theorem lt_of_lt_includedCount
    {position : Nat}
    (earlier : position < includedCount requested branch) :
    totalDifficulty (branch.take position) < requested := by
  have present := List.getElem?_eq_getElem earlier
  rw [creditedShares_getElem?] at present
  by_contra reached
  rw [if_neg reached] at present
  cases present

/-- The included shares reach the requested work if the branch does. -/
theorem requested_le_included
    (available : requested ≤ totalDifficulty branch) :
    requested ≤ totalDifficulty (branch.take (includedCount requested branch)) := by
  by_contra short
  rw [Nat.not_le] at short
  have absent :
      (creditedShares requested branch)[includedCount requested branch]? =
        none := by
    simp [includedCount]
  rw [creditedShares_getElem?, if_pos short, Option.map_eq_none_iff,
    List.getElem?_eq_none_iff] at absent
  rw [List.take_of_length_le absent] at short
  omega

/-- Shares that reach the requested work include the included ones. -/
theorem includedCount_le
    {limit : Nat}
    (reaches : requested ≤ totalDifficulty (branch.take limit)) :
    includedCount requested branch ≤ limit := by
  by_contra beyond
  rw [Nat.not_le] at beyond
  have short := lt_of_lt_includedCount beyond
  omega

end Included

/--
The credits of a window spelled out: the newest shares of a branch in full, the
oldest included one only up to what the newer ones leave of the request.
-/
def windowCredits
    (branch : List Share)
    (requested included : Nat) :
    List (MinerId × Nat) :=
  (branch.take included).zipIdx.map fun item =>
    (item.1.minerId,
      if item.2 + 1 < included then difficultyOf item.1
      else requested - totalDifficulty (branch.take item.2))

/-- The walk credits exactly the spelled-out credits. -/
theorem minerCredits_creditedShares
    {requested : Nat}
    {branch : List Share}
    (available : requested ≤ totalDifficulty branch) :
    minerCredits (creditedShares requested branch) =
      windowCredits branch requested (includedCount requested branch) := by
  apply List.ext_getElem?
  intro position
  have reaches := requested_le_included available
  simp only [minerCredits, windowCredits, List.getElem?_map,
    List.getElem?_zipIdx, creditedShares_getElem?]
  by_cases earlier : position < includedCount requested branch
  · have within := lt_of_lt_includedCount earlier
    rw [if_pos within, List.getElem?_take_of_lt earlier]
    cases here : branch[position]? with
    | none => rfl
    | some share =>
        have upTo :
            totalDifficulty (branch.take (position + 1)) =
              totalDifficulty (branch.take position) +
                difficultyOf share := by
          simp [totalDifficulty, List.take_add_one, here]
        simp only [Option.map_some, Nat.zero_add, Option.some.injEq,
          Prod.mk.injEq, true_and]
        by_cases notLast : position + 1 < includedCount requested branch
        · have next := lt_of_lt_includedCount notLast
          rw [if_pos notLast]
          omega
        · have last : includedCount requested branch = position + 1 := by
            omega
          rw [last] at reaches
          rw [if_neg notLast]
          omega
  · have absent : (branch.take (includedCount requested branch))[position]? =
        none := by
      rw [List.getElem?_eq_none_iff, List.length_take]
      omega
    rw [absent]
    have beyond :
        (creditedShares requested branch)[position]? = none := by
      rw [List.getElem?_eq_none_iff]
      exact Nat.not_lt.mp earlier
    rw [creditedShares_getElem?] at beyond
    rw [beyond]
    rfl

namespace ShareChain

variable {backend : Backend} {chain : ShareChain}

/-- A configured chain credits an entry only with validated ancestry. -/
def Payable (chain : ShareChain) (entry : ConnectedShare) : Prop :=
  chain.difficultyPolicy.isSome = true → entry.validatedAncestry = true

theorem requireValidatedPayoutAncestry_ok
    {entry : ConnectedShare}
    (payable : Payable chain entry) :
    requireValidatedPayoutAncestry chain entry = .ok () := by
  unfold requireValidatedPayoutAncestry enforcesSidechainDifficulty
  cases configured : chain.difficultyPolicy.isSome with
  | false => rfl
  | true => simp [payable configured]

/-- Below a payable entry everything is payable. -/
theorem Payable.parent
    (trusted : Trusted chain)
    {id : ShareId}
    {entry parent : ConnectedShare}
    (payable : Payable chain entry)
    (found : chain.connected[id]? = some entry)
    (parentFound : chain.connected[entry.share.parentId]? = some parent)
    (nonzero : entry.share.parentId ≠ 0) :
    Payable chain parent := by
  intro configured
  have validated := (trusted.validated found (payable configured)).parent
  rcases parentValidated_iff.mp validated with zero | ⟨other, present, flagged⟩
  · exact (nonzero zero).elim
  · rw [parentFound] at present
    cases present
    exact flagged

/-- Widening a difficulty to work keeps its value. -/
theorem toNat_difficultyWork (difficulty : Difficulty128) :
    (difficulty.setWidth 256).toNat = difficulty.toNat := by
  rw [BitVec.toNat_setWidth]
  exact Nat.mod_eq_of_lt (lt_of_lt_of_le difficulty.isLt
    (Nat.pow_le_pow_right (by norm_num) (by norm_num)))

/-- The work of a share with nonzero difficulty is its difficulty. -/
theorem connectedShareWork_ok
    {share : Share}
    (nonzero : share.shareDifficulty ≠ 0) :
    connectedShareWork share = .ok (difficultyOf share) := by
  have positive : share.shareDifficulty.toNat ≠ 0 := by
    intro zero
    exact nonzero (BitVec.eq_of_toNat_eq (by simpa using zero))
  simp only [connectedShareWork, shareWork_eq_ok nonzero, bind, Except.bind,
    toNat_difficultyWork]
  rw [if_neg positive]
  rfl

section Walk

variable (sound : Sound backend chain) (trusted : Trusted chain)

include sound in
/-- Connected shares have a nonzero difficulty. -/
theorem difficulty_nonzero
    {id : ShareId}
    {entry : ConnectedShare}
    (found : chain.connected[id]? = some entry) :
    entry.share.shareDifficulty ≠ 0 :=
  (structuralRejectReason_eq_none (sound.structural found)).1

include sound in
/-- Crediting a share adds its credit to the rows. -/
theorem creditShare_returned
    {id : ShareId}
    {current : ConnectedShare}
    (found : chain.connected[id]? = some current)
    {credits : List (Share × Nat)}
    {walk next : WindowWalk}
    (holds : Credits (credits.map shareCredit) walk.credited)
    (agree : AgreeingPayouts (credits.map shareCredit))
    (returned : creditShare backend chain current walk = .ok next) :
    next.remaining =
        walk.remaining - min (difficultyOf current.share) walk.remaining ∧
      next.includedShares = walk.includedShares + 1 ∧
      AgreeingPayouts
        ((credits ++ [(current.share,
          min (difficultyOf current.share) walk.remaining)]).map
            shareCredit) ∧
      Credits
        ((credits ++ [(current.share,
          min (difficultyOf current.share) walk.remaining)]).map shareCredit)
        next.credited := by
  obtain ⟨_, _, returned⟩ := except_bind_eq_ok.mp returned
  obtain ⟨currentWork, works, returned⟩ := except_bind_eq_ok.mp returned
  rw [connectedShareWork_ok (difficulty_nonzero sound found)] at works
  cases works
  obtain ⟨merged, merges, returned⟩ := except_bind_eq_ok.mp returned
  cases returned
  obtain ⟨rfl, agrees⟩ := mergePayoutIdentity_eq_ok merges
  have extended :
      AgreeingPayouts
        (credits.map shareCredit ++
          [shareCredit (current.share,
            min (difficultyOf current.share) walk.remaining)]) :=
    holds.agreeing_append agree agrees
  rw [List.map_append, List.map_singleton]
  exact ⟨rfl, rfl, extended, holds.insert extended rfl rfl⟩

include sound in
/-- Crediting a payable share with a bound payout does not throw. -/
theorem creditShare_ok
    {id : ShareId}
    {current : ConnectedShare}
    (found : chain.connected[id]? = some current)
    (payable : Payable chain current)
    {credits : List (Share × Nat)}
    {walk : WindowWalk}
    (holds : Credits (credits.map shareCredit) walk.credited)
    (bound :
      BoundPayouts backend (current.share :: credits.map Prod.fst)) :
    ∃ next, creditShare backend chain current walk = .ok next := by
  have agree :
      AgreeingPayouts
        (credits.map shareCredit ++
          [shareCredit (current.share,
            min (difficultyOf current.share) walk.remaining)]) := by
    rw [← List.map_singleton, ← List.map_append]
    refine BoundPayouts.agreeing (bound.subset fun share member => ?_)
    simpa [or_comm] using member
  obtain ⟨merged, merges⟩ :
      ∃ merged : CreditedWork,
        mergePayoutIdentity backend
            { walk.credited[current.share.minerId]?.getD {} with
              work := (walk.credited[current.share.minerId]?.getD {}).work +
                min (difficultyOf current.share) walk.remaining }
            current.share = .ok merged :=
    ⟨_, mergePayoutIdentity_ok (bound.bound current.share (by simp))
      (fun payout stored carried before =>
        holds.stored_agrees agree carried before)⟩
  refine ⟨{
    remaining :=
      walk.remaining - min (difficultyOf current.share) walk.remaining
    includedShares := walk.includedShares + 1
    credited := walk.credited.insert current.share.minerId merged }, ?_⟩
  simp only [creditShare, requireValidatedPayoutAncestry_ok payable,
    connectedShareWork_ok (difficulty_nonzero sound found), merges, bind,
    Except.bind, pure, Except.pure]

/-- Where the walk ends, nothing older is credited. -/
theorem creditedShares_ended
    {connected : ShareMap ConnectedShare}
    {parentId : ShareId}
    {older : List Share}
    (isBranch : Branch connected parentId older)
    {remaining : Nat}
    (stops : remaining = 0 ∨ isZeroShareId parentId = true) :
    creditedShares remaining older = [] ∧
      remaining - totalDifficulty older = remaining := by
  rcases stops with rfl | root
  · exact ⟨creditedShares_zero .., Nat.zero_sub _⟩
  · rw [isZeroShareId_iff.mp root, Branch.zero_iff] at isBranch
    simp [isBranch, creditedShares]

include sound in
/-- The walk credits the newest shares of the branch it follows. -/
theorem creditShares_returned
    {budget : Nat}
    {id : ShareId}
    {current : ConnectedShare}
    {older : List Share}
    (found : chain.connected[id]? = some current)
    (isBranch : Branch chain.connected current.share.parentId older)
    {credits : List (Share × Nat)}
    {walk final : WindowWalk}
    (holds : Credits (credits.map shareCredit) walk.credited)
    (agree : AgreeingPayouts (credits.map shareCredit))
    (enough : walk.remaining ≤ budget)
    (returned : creditShares backend chain budget current walk = .ok final) :
    final.remaining =
        walk.remaining - totalDifficulty (current.share :: older) ∧
      final.includedShares =
        walk.includedShares +
          includedCount walk.remaining (current.share :: older) ∧
      Credits
        ((credits ++
          creditedShares walk.remaining (current.share :: older)).map
            shareCredit)
        final.credited := by
  induction budget generalizing id current older credits walk with
  | zero =>
      have nothing : walk.remaining = 0 := by omega
      cases returned
      refine ⟨?_, ?_, ?_⟩
      · omega
      · simp [includedCount, nothing, creditedShares]
      · simpa [nothing, creditedShares] using holds
  | succ budget inductionHypothesis =>
      by_cases nothing : walk.remaining = 0
      · rw [creditShares, if_pos nothing] at returned
        cases returned
        refine ⟨?_, ?_, ?_⟩
        · omega
        · simp [includedCount, nothing, creditedShares]
        · simpa [nothing, creditedShares] using holds
      have positive : 0 < difficultyOf current.share := by
        refine Nat.pos_of_ne_zero fun zero => ?_
        exact difficulty_nonzero sound found
          (BitVec.eq_of_toNat_eq (by simpa [difficultyOf] using zero))
      rw [creditShares, if_neg nothing] at returned
      obtain ⟨next, credits', returned⟩ := except_bind_eq_ok.mp returned
      obtain ⟨remaining, included, nextAgree, nextHolds⟩ :=
        creditShare_returned sound found holds agree credits'
      have unfolded :
          creditedShares walk.remaining (current.share :: older) =
            (current.share, min (difficultyOf current.share) walk.remaining) ::
              creditedShares next.remaining older := by
        rw [creditedShares, if_neg nothing, remaining]
      have counted :
          includedCount walk.remaining (current.share :: older) =
            includedCount next.remaining older + 1 := by
        simp [includedCount, unfolded]
      by_cases stops :
          next.remaining = 0 ∨
            isZeroShareId current.share.parentId = true
      · -- The walk ends here: nothing remains, or the root is credited.
        obtain ⟨noOlder, olderTotal⟩ := creditedShares_ended isBranch stops
        rw [if_pos stops] at returned
        cases returned
        refine ⟨?_, ?_, ?_⟩
        · rw [totalDifficulty_cons]
          omega
        · rw [included, counted]
          simp [includedCount, noOlder]
        · rw [unfolded, noOlder]
          exact nextHolds
      · rw [if_neg stops] at returned
        rw [not_or, Bool.not_eq_true] at stops
        have nonzero := isZeroShareId_eq_false.mp stops.2
        obtain ⟨parent, deeper, parentFound, rfl, parentBranch⟩ :=
          isBranch.head nonzero
        simp only [find, parentFound] at returned
        obtain ⟨finalRemaining, finalIncluded, finalHolds⟩ :=
          inductionHypothesis parentFound parentBranch nextHolds nextAgree
            (by omega) returned
        refine ⟨?_, ?_, ?_⟩
        · rw [finalRemaining, remaining, totalDifficulty_cons current.share]
          omega
        · rw [finalIncluded, included, counted]
          omega
        · rw [unfolded]
          simpa using finalHolds

include sound trusted in
/-- The walk from a payable share along bound payouts does not throw. -/
theorem creditShares_ok
    {budget : Nat}
    {id : ShareId}
    {current : ConnectedShare}
    {older : List Share}
    (found : chain.connected[id]? = some current)
    (isBranch : Branch chain.connected current.share.parentId older)
    (payable : Payable chain current)
    {credits : List (Share × Nat)}
    {walk : WindowWalk}
    (holds : Credits (credits.map shareCredit) walk.credited)
    (bound :
      BoundPayouts backend
        ((current.share :: older) ++ credits.map Prod.fst)) :
    ∃ final, creditShares backend chain budget current walk = .ok final := by
  induction budget generalizing id current older credits walk with
  | zero => exact ⟨walk, rfl⟩
  | succ budget inductionHypothesis =>
      by_cases nothing : walk.remaining = 0
      · exact ⟨walk, by simp [creditShares, nothing]⟩
      have agree : AgreeingPayouts (credits.map shareCredit) :=
        BoundPayouts.agreeing (bound.subset fun share member => by
          simp [member])
      obtain ⟨next, credits'⟩ :=
        creditShare_ok sound found payable holds
          (bound.subset fun share member => by
            rcases List.mem_cons.mp member with rfl | member
            · simp
            · simp only [List.cons_append, List.mem_cons, List.mem_append]
              exact .inr (.inr member))
      obtain ⟨_, _, _, nextHolds⟩ :=
        creditShare_returned sound found holds agree credits'
      rw [creditShares, if_neg nothing, credits']
      simp only [bind, Except.bind]
      by_cases stops :
          next.remaining = 0 ∨
            isZeroShareId current.share.parentId = true
      · exact ⟨next, by rw [if_pos stops]⟩
      · rw [if_neg stops]
        rw [not_or, Bool.not_eq_true] at stops
        have nonzero := isZeroShareId_eq_false.mp stops.2
        obtain ⟨parent, deeper, parentFound, rfl, parentBranch⟩ :=
          isBranch.head nonzero
        simp only [find, parentFound]
        refine inductionHypothesis parentFound parentBranch
          (payable.parent trusted found parentFound nonzero) nextHolds
          (bound.subset fun share member => ?_)
        simp only [List.map_append, List.map_cons, List.map_nil,
          List.mem_append, List.mem_cons, List.not_mem_nil,
          or_false] at member ⊢
        tauto

include sound trusted in
/-- The recent work is the difficulty of the newest shares of the branch. -/
theorem recentWork_ok
    {budget : Nat}
    {id : ShareId}
    {current : ConnectedShare}
    {older : List Share}
    (found : chain.connected[id]? = some current)
    (isBranch : Branch chain.connected current.share.parentId older)
    (payable : Payable chain current) :
    recentWork chain budget current =
      .ok (totalDifficulty ((current.share :: older).take budget)) := by
  induction budget generalizing id current older with
  | zero => simp [recentWork]
  | succ budget inductionHypothesis =>
      have nonzero := difficulty_nonzero sound found
      simp only [recentWork, requireValidatedPayoutAncestry_ok payable,
        connectedShareWork_ok nonzero, bind, Except.bind,
        List.take_succ_cons, totalDifficulty_cons]
      by_cases root : isZeroShareId current.share.parentId = true
      · rw [isZeroShareId_iff.mp root, Branch.zero_iff] at isBranch
        simp [root, isBranch]
      · have parentNonzero :=
          isZeroShareId_eq_false.mp (Bool.not_eq_true _ ▸ root)
        obtain ⟨parent, deeper, parentFound, rfl, parentBranch⟩ :=
          isBranch.head parentNonzero
        rw [if_neg root]
        simp only [find, parentFound,
          inductionHypothesis parentFound parentBranch
            (payable.parent trusted found parentFound parentNonzero)]

end Walk

end ShareChain

/-- The row a credited miner gets in a window. -/
def creditedRow (item : MinerId × CreditedWork) : PplnsMinerWork where
  minerId := item.1
  work := BitVec.ofNat 256 item.2.work
  payout := item.2.payout

/-- Rows whose work fits are written without an exception. -/
theorem mapM_minerRow
    {items : List (MinerId × CreditedWork)}
    (fits : ∀ item ∈ items, item.2.work < 2 ^ 256) :
    items.mapM minerRow = .ok (items.map creditedRow) := by
  induction items with
  | nil => rfl
  | cons item rest inductionHypothesis =>
      obtain ⟨itemFits, restFits⟩ := List.forall_mem_cons.mp fits
      have row : minerRow item = .ok (creditedRow item) := by
        simp only [minerRow, intToWork, if_pos itemFits, bind, Except.bind]
        rfl
      rw [List.mapM_cons, row, inductionHypothesis restFits]
      rfl

/-- Rows that are written without an exception fit. -/
theorem mapM_minerRow_eq_ok
    {items : List (MinerId × CreditedWork)}
    {rows : List PplnsMinerWork}
    (written : items.mapM minerRow = .ok rows) :
    (∀ item ∈ items, item.2.work < 2 ^ 256) ∧
      rows = items.map creditedRow := by
  have fits : ∀ item ∈ items, item.2.work < 2 ^ 256 := by
    induction items generalizing rows with
    | nil => simp
    | cons item rest inductionHypothesis =>
        rw [List.mapM_cons] at written
        obtain ⟨row, first, written⟩ := except_bind_eq_ok.mp written
        obtain ⟨others, restWritten, _⟩ := except_bind_eq_ok.mp written
        obtain ⟨work, works, _⟩ := except_bind_eq_ok.mp first
        rw [intToWork] at works
        split at works
        · rename_i small
          exact List.forall_mem_cons.mpr
            ⟨small, inductionHypothesis restWritten⟩
        · cases works
  rw [mapM_minerRow fits] at written
  exact ⟨fits, (Except.ok.inj written).symm⟩

/-- What a window credits at a parent whose branch is given. -/
structure IsPplnsWindow
    (branch : List Share)
    (limit cap : Nat)
    (window : PplnsWindow) :
    Prop where
  requested :
    window.requestedWork.toNat =
      min (totalDifficulty (branch.take limit)) cap
  covered : window.coveredWork = window.requestedWork
  complete : window.complete = true
  reached :
    window.requestedWork.toNat ≤
      totalDifficulty (branch.take window.includedShares)
  least :
    ∀ fewer < window.includedShares,
      totalDifficulty (branch.take fewer) < window.requestedWork.toNat
  bounded : window.includedShares ≤ limit
  rowWork :
    ∀ row ∈ window.miners,
      row.work.toNat =
        keyedSum
          (windowCredits branch window.requestedWork.toNat
            window.includedShares) row.minerId
  rowNonzero : ∀ row ∈ window.miners, row.work ≠ 0
  everyMiner :
    ∀ share ∈ branch.take window.includedShares,
      ∃ row ∈ window.miners, row.minerId = share.minerId
  payouts :
    ∀ row ∈ window.miners, ∀ payout,
      row.payout = some payout ↔
        ∃ share ∈ branch.take window.includedShares,
          share.minerId = row.minerId ∧ share.payout = some payout
  sorted :
    window.miners.Pairwise fun left right => left.minerId < right.minerId
  total :
    (window.miners.map fun row => row.work.toNat).sum =
      window.coveredWork.toNat

/-- The included shares are the newest ones. -/
theorem creditedShares_fst
    (requested : Nat)
    (branch : List Share) :
    (creditedShares requested branch).map Prod.fst =
      branch.take (includedCount requested branch) := by
  induction branch generalizing requested with
  | nil => simp [creditedShares]
  | cons share older inductionHypothesis =>
      by_cases nothing : requested = 0
      · simp [creditedShares, includedCount, nothing]
      · have next := inductionHypothesis
          (requested - min (difficultyOf share) requested)
        simp only [includedCount, creditedShares, if_neg nothing,
          List.map_cons, List.length_cons, List.take_succ_cons] at next ⊢
        rw [next]

/-- Every credited amount is positive. -/
theorem creditedShares_pos
    {requested : Nat}
    {branch : List Share}
    (positive : ∀ share ∈ branch, 0 < difficultyOf share) :
    ∀ credit ∈ creditedShares requested branch, 0 < credit.2 := by
  induction branch generalizing requested with
  | nil => simp [creditedShares]
  | cons share older inductionHypothesis =>
      by_cases nothing : requested = 0
      · simp [creditedShares, nothing]
      · intro credit member
        rw [creditedShares, if_neg nothing] at member
        rcases List.mem_cons.mp member with rfl | later
        · exact lt_min (positive share (by simp))
            (Nat.pos_of_ne_zero nothing)
        · exact inductionHypothesis
            (fun other inOlder => positive other (by simp [inOlder]))
            credit later

/-- No share is credited more than its difficulty. -/
theorem creditedShares_le
    {requested : Nat}
    {branch : List Share} :
    ∀ credit ∈ creditedShares requested branch,
      credit.2 ≤ difficultyOf credit.1 := by
  induction branch generalizing requested with
  | nil => simp [creditedShares]
  | cons share older inductionHypothesis =>
      by_cases nothing : requested = 0
      · simp [creditedShares, nothing]
      · intro credit member
        rw [creditedShares, if_neg nothing] at member
        rcases List.mem_cons.mp member with rfl | later
        · exact Nat.min_le_left _ _
        · exact inductionHypothesis credit later

/--
The rows of a window hold the work of some credits and nothing else: one row for
each miner, in which every credit of the miner is counted once.
-/
structure WindowCredits
    (credits : List (Share × Nat))
    (window : PplnsWindow) :
    Prop where
  included : window.includedShares = credits.length
  rowWork :
    ∀ row ∈ window.miners,
      row.work.toNat = keyedSum (minerCredits credits) row.minerId
  everyMiner :
    ∀ credit ∈ credits,
      ∃ row ∈ window.miners, row.minerId = credit.1.minerId
  sorted :
    window.miners.Pairwise fun left right => left.minerId < right.minerId
  total :
    (window.miners.map fun row => row.work.toNat).sum =
      (credits.map Prod.snd).sum
  covered : window.coveredWork.toNat = (credits.map Prod.snd).sum

section Rows

variable {credits : List (Share × Nat)}
variable {credited : Std.ExtTreeMap MinerId CreditedWork}
variable (holds : Credits (credits.map shareCredit) credited)

include holds in
/-- A miner has a row exactly if one of its shares is credited. -/
theorem row_present
    (minerId : MinerId) :
    (∃ row, credited[minerId]? = some row) ↔
      ∃ credit ∈ credits, credit.1.minerId = minerId := by
  have present := holds.present minerId
  simpa [shareCredit] using present

include holds in
/-- The work of a row. -/
theorem row_work
    {item : MinerId × CreditedWork}
    (member : item ∈ credited.toList) :
    item.2.work = keyedSum (minerCredits credits) item.1 := by
  rw [holds.work (Std.ExtTreeMap.mem_toList_iff_getElem?_eq_some.mp member),
    creditWorks_shareCredit]

include holds in
/-- Credits of positive amounts leave no row empty. -/
theorem row_nonzero
    (positive : ∀ credit ∈ credits, 0 < credit.2)
    {item : MinerId × CreditedWork}
    (member : item ∈ credited.toList) :
    item.2.work ≠ 0 := by
  obtain ⟨credit, inCredits, sameMiner⟩ :=
    (row_present holds item.1).mp
      ⟨item.2, Std.ExtTreeMap.mem_toList_iff_getElem?_eq_some.mp member⟩
  have inMiners :
      (credit.1.minerId, credit.2) ∈ minerCredits credits :=
    List.mem_map.mpr ⟨credit, inCredits, rfl⟩
  have part := le_keyedSum inMiners
  have creditPositive := positive credit inCredits
  rw [sameMiner, ← row_work holds member] at part
  omega

include holds in
/-- The rows together hold the credited work. -/
theorem sum_rows :
    (credited.toList.map fun item => item.2.work).sum =
      (credits.map Prod.snd).sum := by
  rw [holds.sum_work, creditWorks_shareCredit, minerCredits, List.map_map]
  rfl

include holds in
/-- Rows that fit describe the credits they were collected from. -/
theorem windowCredits_of_rows
    (small : ∀ item ∈ credited.toList, item.2.work < 2 ^ 256)
    {window : PplnsWindow}
    (miners : window.miners = credited.toList.map creditedRow)
    (included : window.includedShares = credits.length)
    (covered : window.coveredWork.toNat = (credits.map Prod.snd).sum) :
    WindowCredits credits window := by
  have rowValue :
      ∀ item ∈ credited.toList,
        (creditedRow item).work.toNat = item.2.work := by
    intro item member
    rw [creditedRow, BitVec.toNat_ofNat]
    exact Nat.mod_eq_of_lt (small item member)
  constructor
  case included => exact included
  case covered => exact covered
  case rowWork =>
    intro row member
    rw [miners] at member
    obtain ⟨item, inRows, rfl⟩ := List.mem_map.mp member
    rw [rowValue item inRows]
    exact row_work holds inRows
  case everyMiner =>
    intro credit inCredits
    obtain ⟨row, stored⟩ :=
      (row_present holds credit.1.minerId).mpr ⟨credit, inCredits, rfl⟩
    rw [miners]
    exact ⟨creditedRow (credit.1.minerId, row),
      List.mem_map.mpr ⟨_, Std.ExtTreeMap.mem_toList_iff_getElem?_eq_some.mpr
        stored, rfl⟩, rfl⟩
  case sorted =>
    rw [miners, List.pairwise_map]
    refine Std.ExtTreeMap.ordered_keys_toList.imp ?_
    intro left right smaller
    exact compareOfLessAndEq_eq_lt.mp smaller
  case total =>
    rw [miners, List.map_map, ← sum_rows holds]
    exact congrArg List.sum (List.map_congr_left rowValue)

end Rows

/-- The rows of a finished walk describe the credited shares. -/
theorem isPplnsWindow_of_credits
    {branch : List Share}
    {limit cap : Nat}
    (positive : ∀ share ∈ branch, 0 < difficultyOf share)
    (small : totalDifficulty branch < 2 ^ 256)
    {credited : Std.ExtTreeMap MinerId CreditedWork}
    (holds :
      Credits
        ((creditedShares (min (totalDifficulty (branch.take limit)) cap)
          branch).map shareCredit)
        credited) :
    (∀ item ∈ credited.toList, item.2.work ≠ 0 ∧ item.2.work < 2 ^ 256) ∧
    IsPplnsWindow branch limit cap
      { requestedWork :=
          BitVec.ofNat 256 (min (totalDifficulty (branch.take limit)) cap)
        coveredWork :=
          BitVec.ofNat 256 (min (totalDifficulty (branch.take limit)) cap)
        includedShares :=
          includedCount (min (totalDifficulty (branch.take limit)) cap) branch
        complete := true
        miners := credited.toList.map creditedRow } := by
  have takeLe : ∀ count, totalDifficulty (branch.take count) ≤ totalDifficulty branch :=
    fun count => ((List.take_sublist count branch).map difficultyOf).sum_le_sum
      (by simp)
  generalize requestedShape :
    min (totalDifficulty (branch.take limit)) cap = requested at holds ⊢
  have available : requested ≤ totalDifficulty branch := by
    have := takeLe limit
    omega
  have requestedValue :
      (BitVec.ofNat 256 requested).toNat = requested := by
    rw [BitVec.toNat_ofNat]
    exact Nat.mod_eq_of_lt (lt_of_le_of_lt available small)
  have summed := sum_creditedShares requested branch
  rw [Nat.min_eq_left available] at summed
  have bounds :
      ∀ item ∈ credited.toList,
        item.2.work ≠ 0 ∧ item.2.work < 2 ^ 256 := by
    intro item member
    have within :
        item.2.work ≤ (credited.toList.map fun item => item.2.work).sum :=
      List.single_le_sum (by simp) _ (List.mem_map.mpr ⟨item, member, rfl⟩)
    rw [sum_rows holds, summed] at within
    exact ⟨row_nonzero holds (creditedShares_pos positive) member, by omega⟩
  have rows :=
    @windowCredits_of_rows _ _ holds (fun item member => (bounds item member).2)
      { requestedWork := BitVec.ofNat 256 requested
        coveredWork := BitVec.ofNat 256 requested
        includedShares := includedCount requested branch
        complete := true
        miners := credited.toList.map creditedRow }
      rfl rfl (by rw [requestedValue, summed])
  refine ⟨bounds, ?_⟩
  constructor
  case requested => rw [requestedValue, requestedShape]
  case covered => rfl
  case complete => rfl
  case reached =>
    rw [requestedValue]
    exact requested_le_included available
  case least =>
    intro fewer earlier
    rw [requestedValue]
    exact lt_of_lt_includedCount earlier
  case bounded => exact includedCount_le (by omega)
  case rowWork =>
    intro row member
    rw [rows.rowWork row member, minerCredits_creditedShares available,
      requestedValue]
  case rowNonzero =>
    intro row member zero
    obtain ⟨item, inRows, rfl⟩ := List.mem_map.mp member
    obtain ⟨nonzero, small⟩ := bounds item inRows
    have value := congrArg BitVec.toNat zero
    rw [creditedRow, BitVec.toNat_ofNat, Nat.mod_eq_of_lt small] at value
    exact nonzero (by simpa using value)
  case everyMiner =>
    intro share member
    rw [← creditedShares_fst] at member
    obtain ⟨credit, inCredits, rfl⟩ := List.mem_map.mp member
    exact rows.everyMiner credit inCredits
  case payouts =>
    intro row member payout
    obtain ⟨item, inRows, rfl⟩ := List.mem_map.mp member
    rw [← creditedShares_fst]
    change item.2.payout = some payout ↔ _
    rw [holds.payout
      (Std.ExtTreeMap.mem_toList_iff_getElem?_eq_some.mp inRows) payout]
    constructor
    · rintro ⟨collected, member, sameMiner, carried⟩
      obtain ⟨credit, inCredits, rfl⟩ := List.mem_map.mp member
      exact ⟨credit.1, List.mem_map.mpr ⟨credit, inCredits, rfl⟩, sameMiner,
        carried⟩
    · rintro ⟨share, inShares, sameMiner, carried⟩
      obtain ⟨credit, inCredits, rfl⟩ := List.mem_map.mp inShares
      exact ⟨shareCredit credit, List.mem_map.mpr ⟨credit, inCredits, rfl⟩,
        sameMiner, carried⟩
  case sorted => exact rows.sorted
  case total => rw [rows.total, summed, requestedValue]

/-- Payouts carried by connected shares have different miner identities. -/
def DistinctPayouts (backend : Backend) (chain : ShareChain) : Prop :=
  ∀ ⦃first second : ShareId⦄ ⦃entry other : ConnectedShare⦄
    ⦃payout otherPayout : PayoutPublicKeys⦄,
    chain.connected[first]? = some entry →
    chain.connected[second]? = some other →
    entry.share.payout = some payout →
    other.share.payout = some otherPayout →
    minerIdFromPayout backend payout =
      minerIdFromPayout backend otherPayout →
      payout = otherPayout

namespace ShareChain

variable {backend : Backend} {chain : ShareChain}

/-- A keyed share that carries a payout binds it to its miner. -/
theorem payout_bound
    {share : Share}
    {id : ShareId}
    (keyed : shareId backend share = .ok id)
    {payout : PayoutPublicKeys}
    (carried : share.payout = some payout) :
    share.version = kShareVersion2 ∧
      share.minerId = minerIdFromPayout backend payout := by
  unfold shareId at keyed
  obtain ⟨bytes, serialized, _⟩ := except_bind_eq_ok.mp keyed
  cases (serializeShare_eq_ok.mp serialized).1 with
  | version1 _ absent =>
      rw [carried] at absent
      cases absent
  | version2 version present matching =>
      rw [carried] at present
      cases present
      exact ⟨version, matching⟩

/-- The payouts of a branch are bound without collisions. -/
theorem branch_boundPayouts
    (sound : Sound backend chain)
    (distinct : DistinctPayouts backend chain)
    {id : ShareId}
    {branch : List Share}
    (isBranch : Branch chain.connected id branch) :
    BoundPayouts backend branch := by
  constructor
  · intro share member payout carried
    obtain ⟨other, entry, found, rfl⟩ := isBranch.exists_connected member
    exact payout_bound (sound.keyed found).2 carried
  · intro first firstMember second secondMember payout other carried
      otherCarried sameMiner
    obtain ⟨firstId, firstEntry, firstFound, rfl⟩ :=
      isBranch.exists_connected firstMember
    obtain ⟨secondId, secondEntry, secondFound, rfl⟩ :=
      isBranch.exists_connected secondMember
    have firstBound := (payout_bound (sound.keyed firstFound).2 carried).2
    have secondBound :=
      (payout_bound (sound.keyed secondFound).2 otherCarried).2
    exact distinct firstFound secondFound carried otherCarried
      (by rw [← firstBound, ← secondBound, sameMiner])

/-- Difficulties of a branch are positive. -/
theorem branch_positive
    (sound : Sound backend chain)
    {id : ShareId}
    {branch : List Share}
    (isBranch : Branch chain.connected id branch) :
    ∀ share ∈ branch, 0 < difficultyOf share := by
  intro share member
  obtain ⟨other, entry, found, rfl⟩ := isBranch.exists_connected member
  refine Nat.pos_of_ne_zero fun zero => ?_
  exact difficulty_nonzero sound found
    (BitVec.eq_of_toNat_eq (by simpa [difficultyOf] using zero))

/-- Difficulties of a branch are positive and their sum fits 256 bits. -/
theorem branch_difficulties
    (sound : Sound backend chain)
    {id : ShareId}
    {branch : List Share}
    (isBranch : Branch chain.connected id branch)
    (nonzero : id ≠ 0) :
    (∀ share ∈ branch, 0 < difficultyOf share) ∧
      totalDifficulty branch < 2 ^ 256 := by
  refine ⟨branch_positive sound isBranch, ?_⟩
  obtain ⟨entry, older, found, rfl, below⟩ := isBranch.head nonzero
  obtain ⟨other, otherBranch, _, exactWork⟩ := sound.rooted found
  obtain rfl := otherBranch.unique below
  have bound := entry.cumulativeWork.isLt
  rw [exactWork] at bound
  exact bound

/-- The generic window at a payable parent covers the requested work. -/
theorem buildPplnsWindowAtParent_ok
    (sound : Sound backend chain)
    (trusted : Trusted chain)
    (distinct : DistinctPayouts backend chain)
    {parentId : ShareId}
    {current : ConnectedShare}
    (nonzero : parentId ≠ 0)
    (found : chain.connected[parentId]? = some current)
    (payable : Payable chain current)
    {branch : List Share}
    (isBranch : Branch chain.connected parentId branch)
    {limit cap : Nat}
    (positive : 0 < min (totalDifficulty (branch.take limit)) cap) :
    ∃ window,
      buildPplnsWindowAtParent backend chain parentId
          (BitVec.ofNat 256
            (min (totalDifficulty (branch.take limit)) cap)) =
        .ok window ∧
      IsPplnsWindow branch limit cap window := by
  obtain ⟨difficulties, small⟩ := branch_difficulties sound isBranch nonzero
  have bound := branch_boundPayouts sound distinct isBranch
  obtain ⟨entry, older, entryFound, rfl, below⟩ := isBranch.head nonzero
  rw [found] at entryFound
  cases entryFound
  have takeLe :
      totalDifficulty ((current.share :: older).take limit) ≤
        totalDifficulty (current.share :: older) :=
    ((List.take_sublist limit _).map difficultyOf).sum_le_sum (by simp)
  have requestedValue :
      (BitVec.ofNat 256
        (min (totalDifficulty ((current.share :: older).take limit))
          cap)).toNat =
        min (totalDifficulty ((current.share :: older).take limit)) cap := by
    rw [BitVec.toNat_ofNat]
    exact Nat.mod_eq_of_lt (by omega)
  have available :
      min (totalDifficulty ((current.share :: older).take limit)) cap ≤
        totalDifficulty (current.share :: older) := by
    omega
  have describes :=
    fun (credited : Std.ExtTreeMap MinerId CreditedWork) holds =>
      @isPplnsWindow_of_credits _ limit cap difficulties small credited holds
  generalize
    min (totalDifficulty ((current.share :: older).take limit)) cap =
      requested at positive requestedValue describes available ⊢
  have empty :
      Credits (([] : List (Share × Nat)).map shareCredit)
        (WindowWalk.mk requested 0 ∅).credited :=
    Credits.empty
  obtain ⟨final, walked⟩ :=
    @creditShares_ok _ _ sound trusted requested _ _ _ found below payable _ _
      empty (by simpa using bound)
  obtain ⟨remaining, included, holds⟩ :=
    creditShares_returned sound found below empty (by simp [AgreeingPayouts])
      le_rfl walked
  rw [Nat.sub_eq_zero_of_le available] at remaining
  rw [Nat.zero_add] at included
  obtain ⟨rows, window⟩ := describes final.credited holds
  refine ⟨_, ?_, window⟩
  have kept :
      (final.credited.toList.filter fun item => item.2.work ≠ 0) =
        final.credited.toList :=
    List.filter_eq_self.mpr fun item member => by
      simpa using (rows item member).1
  have start : pplnsParent chain parentId = .ok (some current) := by
    have notZero := isZeroShareId_eq_false.mpr nonzero
    simp [pplnsParent, notZero, find, found]
  have covered :
      intToWork (requested - 0) =
        .ok (BitVec.ofNat 256 requested) := by
    rw [Nat.sub_zero, intToWork, if_pos (by omega)]
  have written := mapM_minerRow fun item member => (rows item member).2
  simp only [buildPplnsWindowAtParent, requestedValue,
    if_neg (Nat.ne_of_gt positive), start, bind, Except.bind, walked, covered,
    kept, written, remaining, included]
  rfl

/-- The walk behind a window that is returned. -/
theorem buildPplnsWindowAtParent_eq_ok
    {parentId : ShareId}
    {requestedWork : ChainWork}
    {window : PplnsWindow}
    (built :
      buildPplnsWindowAtParent backend chain parentId requestedWork =
        .ok window) :
    ∃ (start : Option ConnectedShare) (walk : WindowWalk),
      pplnsParent chain parentId = .ok start ∧
      (start.elim (.ok { remaining := requestedWork.toNat }) fun current =>
        creditShares backend chain requestedWork.toNat current
          { remaining := requestedWork.toNat }) = .ok walk ∧
      intToWork (requestedWork.toNat - walk.remaining) =
        .ok window.coveredWork ∧
      (walk.credited.toList.filter fun item => item.2.work ≠ 0).mapM
        minerRow = .ok window.miners ∧
      window.includedShares = walk.includedShares ∧
      window.requestedWork = requestedWork := by
  rw [buildPplnsWindowAtParent] at built
  split at built
  · cases built
  obtain ⟨start, starts, built⟩ := except_bind_eq_ok.mp built
  cases start with
  | none =>
      obtain ⟨walk, walked, built⟩ := except_bind_eq_ok.mp built
      obtain ⟨covered, covers, built⟩ := except_bind_eq_ok.mp built
      obtain ⟨rows, written, built⟩ := except_bind_eq_ok.mp built
      cases built
      exact ⟨none, walk, starts, walked, covers, written, rfl, rfl⟩
  | some current =>
      obtain ⟨walk, walked, built⟩ := except_bind_eq_ok.mp built
      obtain ⟨covered, covers, built⟩ := except_bind_eq_ok.mp built
      obtain ⟨rows, written, built⟩ := except_bind_eq_ok.mp built
      cases built
      exact ⟨some current, walk, starts, walked, covers, written, rfl, rfl⟩

/-- The walk of a window that is returned credits the newest shares. -/
theorem walk_credits
    (sound : Sound backend chain)
    {parentId : ShareId}
    {branch : List Share}
    (isBranch : Branch chain.connected parentId branch)
    {requested : Nat}
    {start : Option ConnectedShare}
    {walk : WindowWalk}
    (starts : pplnsParent chain parentId = .ok start)
    (walked :
      (start.elim (.ok { remaining := requested }) fun current =>
        creditShares backend chain requested current
          { remaining := requested }) = .ok walk) :
    walk.remaining = requested - totalDifficulty branch ∧
      walk.includedShares = includedCount requested branch ∧
      Credits ((creditedShares requested branch).map shareCredit)
        walk.credited := by
  have empty :
      Credits (([] : List (Share × Nat)).map shareCredit)
        (WindowWalk.mk requested 0 ∅).credited :=
    Credits.empty
  by_cases zero : parentId = 0
  · subst zero
    have root : isZeroShareId 0 = true := isZeroShareId_iff.mpr rfl
    rw [pplnsParent, if_pos root] at starts
    cases starts
    cases walked
    rw [Branch.zero_iff] at isBranch
    subst isBranch
    exact ⟨rfl, rfl, Credits.empty⟩
  · obtain ⟨current, older, found, rfl, below⟩ := isBranch.head zero
    have notZero := isZeroShareId_eq_false.mpr zero
    simp only [pplnsParent, notZero, find, found, Bool.false_eq_true,
      if_false] at starts
    cases starts
    obtain ⟨remaining, included, holds⟩ :=
      creditShares_returned sound found below empty
        (by simp [AgreeingPayouts]) le_rfl walked
    exact ⟨remaining, by simpa using included, by simpa using holds⟩

/-- A window that is returned credits the newest shares of its branch. -/
theorem buildPplnsWindowAtParent_credits
    (sound : Sound backend chain)
    {parentId : ShareId}
    {branch : List Share}
    (isBranch : Branch chain.connected parentId branch)
    {requestedWork : ChainWork}
    {window : PplnsWindow}
    (built :
      buildPplnsWindowAtParent backend chain parentId requestedWork =
        .ok window) :
    WindowCredits (creditedShares requestedWork.toNat branch) window := by
  obtain ⟨start, walk, starts, walked, covers, written, included, _⟩ :=
    buildPplnsWindowAtParent_eq_ok built
  obtain ⟨remaining, counted, holds⟩ :=
    walk_credits sound isBranch starts walked
  have positive := branch_positive sound isBranch
  have kept :
      (walk.credited.toList.filter fun item => item.2.work ≠ 0) =
        walk.credited.toList :=
    List.filter_eq_self.mpr fun item member => by
      simpa using row_nonzero holds (creditedShares_pos positive) member
  rw [kept] at written
  obtain ⟨fits, miners⟩ := mapM_minerRow_eq_ok written
  refine windowCredits_of_rows holds fits miners (included.trans counted) ?_
  rw [sum_creditedShares]
  rw [intToWork] at covers
  split at covers
  · rename_i small
    rw [← Except.ok.inj covers, BitVec.toNat_ofNat, Nat.mod_eq_of_lt small,
      remaining]
    omega
  · cases covers

/-- The request behind a window that is returned. -/
theorem requestedWork_of_built
    {parentId : ShareId}
    {requestedWork : ChainWork}
    {window : PplnsWindow}
    (built :
      buildPplnsWindowAtParent backend chain parentId requestedWork =
        .ok window) :
    window.requestedWork = requestedWork := by
  obtain ⟨start, walk, _, _, _, _, _, requested⟩ :=
    buildPplnsWindowAtParent_eq_ok built
  exact requested

/-- A sidechain window that is returned credits the newest shares as well. -/
theorem buildSidechainPplnsWindowAtParent_credits
    (sound : Sound backend chain)
    {parentId : ShareId}
    {branch : List Share}
    (isBranch : Branch chain.connected parentId branch)
    {params : SidechainParameters}
    {networkDifficulty : Difficulty128}
    {window : PplnsWindow}
    (built :
      buildSidechainPplnsWindowAtParent backend chain parentId params
          networkDifficulty =
        .ok window) :
    WindowCredits (creditedShares window.requestedWork.toNat branch)
      window := by
  obtain ⟨_, _, built⟩ := except_bind_eq_ok.mp built
  obtain ⟨start, _, built⟩ := except_bind_eq_ok.mp built
  cases start with
  | none =>
      cases built
      rw [show ({} : PplnsWindow).requestedWork.toNat = 0 from rfl,
        creditedShares_zero]
      constructor <;> simp
  | some current =>
      obtain ⟨recent, _, built⟩ := except_bind_eq_ok.mp built
      obtain ⟨networkWork, _, built⟩ := except_bind_eq_ok.mp built
      dsimp only at built
      split at built
      · cases built
      obtain ⟨requestedWork, _, built⟩ := except_bind_eq_ok.mp built
      obtain ⟨inner, innerBuilt, built⟩ := except_bind_eq_ok.mp built
      split at built
      · cases built
      cases built
      rw [requestedWork_of_built innerBuilt]
      exact buildPplnsWindowAtParent_credits sound isBranch innerBuilt

/-- Accepted parameters and a nonzero difficulty pass the policy checks. -/
theorem checkPplnsPolicy_ok
    {params : SidechainParameters}
    (accepted : params.Accepted)
    {networkDifficulty : Difficulty128}
    (nonzero : networkDifficulty ≠ 0) :
    checkPplnsPolicy params networkDifficulty = .ok () := by
  obtain ⟨⟨someShares, atMost⟩, multiplier, _⟩ := accepted.payoutPolicy
  have shares :
      ¬ (params.pplnsWindowShares = 0 ∨
        params.pplnsWindowShares > kCanonicalPplnsWindowShares) := by
    simp [someShares, atMost]
  have difficulty : difficulty128IsZero networkDifficulty = false := by
    simpa [difficulty128IsZero] using nonzero
  simp [checkPplnsPolicy, shares, multiplier, difficulty]

/-- Accepted parameters request some work of every nonempty branch. -/
theorem requestedWork_pos
    {params : SidechainParameters}
    (accepted : params.Accepted)
    {networkDifficulty : Difficulty128}
    (hasDifficulty : networkDifficulty ≠ 0)
    {newest : Share}
    {older : List Share}
    (difficulties : ∀ share ∈ newest :: older, 0 < difficultyOf share) :
    0 < min
      (totalDifficulty
        ((newest :: older).take params.pplnsWindowShares.toNat))
      (networkDifficulty.toNat *
        params.pplnsMaxNetworkDifficultyMultiplier.toNat) := by
  obtain ⟨⟨someShares, _⟩, multiplier, _⟩ := accepted.payoutPolicy
  have shares : 0 < params.pplnsWindowShares.toNat :=
    Nat.pos_of_ne_zero fun zero => someShares (UInt64.toNat_inj.mp zero)
  have first := difficulties newest (by simp)
  obtain ⟨others, more⟩ := Nat.exists_eq_succ_of_ne_zero shares.ne'
  rw [more, List.take_succ_cons, totalDifficulty_cons]
  refine lt_min (by omega) (Nat.mul_pos ?_ ?_)
  · exact Nat.pos_of_ne_zero fun zero =>
      hasDifficulty (BitVec.eq_of_toNat_eq zero)
  · exact Nat.pos_of_ne_zero fun zero =>
      multiplier (UInt64.toNat_inj.mp zero)

/-- The window of a sidechain at a payable parent. -/
theorem buildSidechainPplnsWindowAtParent_ok
    (sound : Sound backend chain)
    (trusted : Trusted chain)
    (distinct : DistinctPayouts backend chain)
    {params : SidechainParameters}
    (accepted : params.Accepted)
    {networkDifficulty : Difficulty128}
    (hasDifficulty : networkDifficulty ≠ 0)
    {parentId : ShareId}
    {current : ConnectedShare}
    (nonzero : parentId ≠ 0)
    (found : chain.connected[parentId]? = some current)
    (payable : Payable chain current)
    {branch : List Share}
    (isBranch : Branch chain.connected parentId branch) :
    ∃ window,
      buildSidechainPplnsWindowAtParent backend chain parentId params
          networkDifficulty =
        .ok window ∧
      IsPplnsWindow branch params.pplnsWindowShares.toNat
        (networkDifficulty.toNat *
          params.pplnsMaxNetworkDifficultyMultiplier.toNat) window := by
  obtain ⟨difficulties, small⟩ := branch_difficulties sound isBranch nonzero
  obtain ⟨entry, older, entryFound, rfl, below⟩ := isBranch.head nonzero
  rw [found] at entryFound
  cases entryFound
  have takeLe :
      totalDifficulty
          ((current.share :: older).take params.pplnsWindowShares.toNat) ≤
        totalDifficulty (current.share :: older) :=
    ((List.take_sublist _ _).map difficultyOf).sum_le_sum (by simp)
  have positive := requestedWork_pos accepted hasDifficulty difficulties
  obtain ⟨window, built, isWindow⟩ :=
    buildPplnsWindowAtParent_ok sound trusted distinct nonzero found payable
      isBranch positive
  refine ⟨window, ?_, isWindow⟩
  have start : pplnsParent chain parentId = .ok (some current) := by
    have notZero := isZeroShareId_eq_false.mpr nonzero
    simp [pplnsParent, notZero, find, found]
  have fits :
      intToWork
          (min
            (totalDifficulty
              ((current.share :: older).take params.pplnsWindowShares.toNat))
            (networkDifficulty.toNat *
              params.pplnsMaxNetworkDifficultyMultiplier.toNat)) =
        .ok (BitVec.ofNat 256 _) :=
    if_pos (by omega)
  have bounded :
      ¬ window.includedShares > params.pplnsWindowShares.toNat :=
    Nat.not_lt.mpr isWindow.bounded
  simp only [buildSidechainPplnsWindowAtParent,
    checkPplnsPolicy_ok accepted hasDifficulty, start,
    recentWork_ok sound trusted found below payable,
    shareWork_eq_ok hasDifficulty, toNat_difficultyWork, bind, Except.bind,
    if_neg (Nat.ne_of_gt positive), fits, built, isWindow.complete, bounded]
  rfl

end ShareChain

/--
After every run in which no call throws, the sidechain window of a payable
parent is built without an exception and credits exactly the newest shares of
its branch.
-/
theorem buildSidechainPplnsWindow_exact
    {backend : Backend}
    {start chain : ShareChain}
    {ops : List ChainOp}
    (fresh : ShareChain.Fresh backend start)
    (ran : runOps backend ops start = .ok () chain)
    (distinct : DistinctPayouts backend chain)
    {params : SidechainParameters}
    (accepted : params.Accepted)
    {networkDifficulty : Difficulty128}
    (hasDifficulty : networkDifficulty ≠ 0)
    {parentId : ShareId}
    (payable :
      parentId = 0 ∨
        ∃ current, chain.connected[parentId]? = some current ∧
          (chain.difficultyPolicy.isSome = true →
            current.validatedAncestry = true)) :
    (parentId = 0 →
      buildSidechainPplnsWindowAtParent backend chain parentId params
          networkDifficulty =
        .ok {}) ∧
    (parentId ≠ 0 →
      ∃ branch window,
        Branch chain.connected parentId branch ∧
        buildSidechainPplnsWindowAtParent backend chain parentId params
            networkDifficulty =
          .ok window ∧
        IsPplnsWindow branch params.pplnsWindowShares.toNat
          (networkDifficulty.toNat *
            params.pplnsMaxNetworkDifficultyMultiplier.toNat) window) := by
  obtain ⟨⟨sound, trusted, _⟩, _, _⟩ := runOps_wellFormed fresh.wellFormed ran
  constructor
  · rintro rfl
    have root : isZeroShareId 0 = true := isZeroShareId_iff.mpr rfl
    simp only [buildSidechainPplnsWindowAtParent,
      ShareChain.checkPplnsPolicy_ok accepted hasDifficulty, pplnsParent, root,
      bind, Except.bind]
    rfl
  · intro nonzero
    rcases payable with zero | ⟨current, found, flagged⟩
    · exact (nonzero zero).elim
    obtain ⟨older, below, _⟩ := sound.rooted found
    have isBranch : Branch chain.connected parentId
        (current.share :: older) :=
      .step nonzero found below
    obtain ⟨window, built, isWindow⟩ :=
      ShareChain.buildSidechainPplnsWindowAtParent_ok sound trusted distinct
        accepted hasDifficulty nonzero found flagged isBranch
    exact ⟨_, window, isBranch, built, isWindow⟩

/-- The sample window at share 2 covers two shares of difficulty one. -/
theorem sampleOps_pplnsWindow :
    ∃ branch window,
      Branch
        (finalState (runOps sampleBackend sampleOps sampleStart)).connected 2
        branch ∧
      buildSidechainPplnsWindowAtParent sampleBackend
          (finalState (runOps sampleBackend sampleOps sampleStart)) 2
          sampleParameters 2 =
        .ok window ∧
      IsPplnsWindow branch 31 4 window := by
  have noPayouts :
      ∀ item ∈ (finalState (runOps sampleBackend sampleOps
          sampleStart)).connected.toList,
        item.2.share.payout = none := by
    decide +kernel
  have distinct :
      DistinctPayouts sampleBackend
        (finalState (runOps sampleBackend sampleOps sampleStart)) := by
    intro first second entry other payout otherPayout found _ carried
    have absent := noPayouts (first, entry)
      (Std.ExtTreeMap.mem_toList_iff_getElem?_eq_some.mpr found)
    rw [show entry.share.payout = none from absent] at carried
    cases carried
  obtain ⟨current, found, flagged⟩ :
      ∃ current,
        (finalState (runOps sampleBackend sampleOps
          sampleStart)).connected[(2 : ShareId)]? = some current ∧
        current.validatedAncestry = true := by
    refine ⟨_, Option.some_get (by decide +kernel) |>.symm, ?_⟩
    decide +kernel
  exact (buildSidechainPplnsWindow_exact
    (.inr ⟨sampleParameters, sampleStart_built⟩)
    (eq_ok_of_succeeds (by decide +kernel)) distinct ⟨_, rfl⟩ (by decide)
    (.inr ⟨current, found, fun _ => flagged⟩)).2 (by decide)

end ZanoP2pool
