import ZanoP2pool.P2pPayoutPolicy
import ZanoP2pool.PplnsCoinbasePlan
import ZanoP2pool.ShareChainInvariants

namespace ZanoP2pool

open Foundation

/-!
# Builder and verifier of payout plans

A verified miner transaction pays every destination of the plan its exact amount,
and a transaction that does is verified, whatever the order of its outputs and
however an amount is split.  The plans of the builder pass the checks of a plan.
-/

section Plan

variable {backend : Backend}

theorem checkPlanDestination_eq_ok
    {earlier : List PplnsCoinbaseDestination}
    {expectedSum : UInt64}
    {destination : PplnsCoinbaseDestination}
    {seen : List PplnsCoinbaseDestination × UInt64} :
    checkPlanDestination backend (earlier, expectedSum) destination =
        .ok seen ↔
      destination.amount ≠ 0 ∧
      destination.minerId = minerIdFromPayout backend destination.payout ∧
      destination.amount.toNat + expectedSum.toNat < 2 ^ 64 ∧
      (∀ other ∈ earlier, other.payout ≠ destination.payout) ∧
      seen = (earlier ++ [destination], expectedSum + destination.amount) := by
  unfold checkPlanDestination
  simp only
  by_cases refused :
      destination.amount = 0 ∨
        minerIdFromPayout backend destination.payout ≠ destination.minerId ∨
        destination.amount > kMaxU64 - expectedSum
  · rw [if_pos refused]
    constructor
    · intro accepted
      cases accepted
    · rintro ⟨nonzero, bound, fits, _⟩
      rcases refused with zero | unbound | overflow
      · exact absurd zero nonzero
      · exact absurd bound.symm unbound
      · exact absurd overflow (fits_of_le_kMaxU64_sub.mpr fits)
  · rw [if_neg refused]
    simp only [not_or, ne_eq, not_not] at refused
    obtain ⟨nonzero, bound, fits⟩ := refused
    by_cases repeated :
        (earlier.any fun other =>
          other.payout = destination.payout) = true
    · rw [if_pos repeated]
      constructor
      · intro accepted
        cases accepted
      · rintro ⟨_, _, _, fresh, _⟩
        obtain ⟨other, member, same⟩ := List.any_eq_true.mp repeated
        exact absurd (of_decide_eq_true same) (fresh other member)
    · rw [if_neg repeated]
      have fresh : ∀ other ∈ earlier, other.payout ≠ destination.payout := by
        intro other member same
        exact repeated
          (List.any_eq_true.mpr ⟨other, member, decide_eq_true same⟩)
      constructor
      · intro accepted
        exact ⟨nonzero, bound.symm, fits_of_le_kMaxU64_sub.mp fits, fresh,
          (Except.ok.inj accepted).symm⟩
      · rintro ⟨_, _, _, _, rfl⟩
        rfl

/-- The destinations of a plan can be paid after those already seen. -/
structure PayableAfter
    (backend : Backend)
    (earlier : List PplnsCoinbaseDestination)
    (destinations : List PplnsCoinbaseDestination) :
    Prop where
  distinct : (destinations.map PplnsCoinbaseDestination.payout).Nodup
  fresh :
    ∀ other ∈ earlier, ∀ destination ∈ destinations,
      other.payout ≠ destination.payout
  bound :
    ∀ destination ∈ destinations,
      destination.minerId = minerIdFromPayout backend destination.payout
  nonzero : ∀ destination ∈ destinations, destination.amount ≠ 0

theorem payableAfter_cons
    {earlier rest : List PplnsCoinbaseDestination}
    {destination : PplnsCoinbaseDestination} :
    PayableAfter backend earlier (destination :: rest) ↔
      destination.amount ≠ 0 ∧
      destination.minerId = minerIdFromPayout backend destination.payout ∧
      (∀ other ∈ earlier, other.payout ≠ destination.payout) ∧
      PayableAfter backend (earlier ++ [destination]) rest := by
  constructor
  · rintro ⟨distinct, fresh, bound, nonzero⟩
    rw [List.map_cons, List.nodup_cons] at distinct
    refine ⟨nonzero _ List.mem_cons_self, bound _ List.mem_cons_self,
      fun other member => fresh other member _ List.mem_cons_self,
      distinct.2, ?_,
      fun other member => bound other (List.mem_cons_of_mem _ member),
      fun other member => nonzero other (List.mem_cons_of_mem _ member)⟩
    intro other member later inRest same
    rcases List.mem_append.mp member with before | here
    · exact fresh other before later (List.mem_cons_of_mem _ inRest) same
    · obtain rfl := List.mem_singleton.mp here
      exact distinct.1 (List.mem_map.mpr ⟨later, inRest, same.symm⟩)
  · rintro ⟨nonzero, bound, fresh, payable⟩
    refine ⟨?_, ?_, ?_, ?_⟩
    · rw [List.map_cons, List.nodup_cons]
      refine ⟨?_, payable.distinct⟩
      intro member
      obtain ⟨later, inRest, same⟩ := List.mem_map.mp member
      exact payable.fresh destination (by simp) later inRest same.symm
    · intro other member later inAll
      rcases List.mem_cons.mp inAll with rfl | inRest
      · exact fresh other member
      · exact payable.fresh other (List.mem_append_left _ member) later inRest
    · intro other inAll
      rcases List.mem_cons.mp inAll with rfl | inRest
      · exact bound
      · exact payable.bound other inRest
    · intro other inAll
      rcases List.mem_cons.mp inAll with rfl | inRest
      · exact nonzero
      · exact payable.nonzero other inRest

/-- The walk over a plan succeeds exactly on payable destinations. -/
theorem foldlM_checkPlanDestination
    {destinations : List PplnsCoinbaseDestination}
    {earlier : List PplnsCoinbaseDestination}
    {expectedSum : UInt64}
    {seen : List PplnsCoinbaseDestination × UInt64} :
    destinations.foldlM (checkPlanDestination backend)
        (earlier, expectedSum) = .ok seen ↔
      PayableAfter backend earlier destinations ∧
      expectedSum.toNat + destinationSum destinations < 2 ^ 64 ∧
      seen.1 = earlier ++ destinations ∧
      seen.2.toNat = expectedSum.toNat + destinationSum destinations := by
  induction destinations generalizing earlier expectedSum with
  | nil =>
      have small := expectedSum.toNat_lt
      obtain ⟨found, total⟩ := seen
      constructor
      · intro ended
        cases ended
        exact ⟨⟨List.nodup_nil, by simp, by simp, by simp⟩,
          by simpa [destinationSum] using small, by simp,
          by simp [destinationSum]⟩
      · rintro ⟨_, _, sameList, sameTotal⟩
        simp only [destinationSum, List.map_nil, List.sum_nil,
          Nat.add_zero] at sameTotal
        obtain rfl : found = earlier := by simpa using sameList
        obtain rfl : total = expectedSum := UInt64.toNat_inj.mp sameTotal
        rfl
  | cons destination rest hypothesis =>
      have sumCons : destinationSum (destination :: rest) =
          destination.amount.toNat + destinationSum rest := by
        simp [destinationSum]
      rw [List.foldlM_cons, except_bind_eq_ok, payableAfter_cons, sumCons]
      constructor
      · rintro ⟨next, checked, walked⟩
        obtain ⟨nonzero, bound, fits, fresh, rfl⟩ :=
          checkPlanDestination_eq_ok.mp checked
        obtain ⟨payable, total, sameList, sameTotal⟩ := hypothesis.mp walked
        rw [toNat_add_of_fits (by omega)] at total sameTotal
        exact ⟨⟨nonzero, bound, fresh, payable⟩, by omega,
          by simpa using sameList, by omega⟩
      · rintro ⟨⟨nonzero, bound, fresh, payable⟩, total, sameList, sameTotal⟩
        have fits :
            destination.amount.toNat + expectedSum.toNat < 2 ^ 64 := by
          omega
        refine ⟨_, checkPlanDestination_eq_ok.mpr
          ⟨nonzero, bound, fits, fresh, rfl⟩, hypothesis.mpr ?_⟩
        rw [toNat_add_of_fits (by omega)]
        exact ⟨payable, by omega, by simpa using sameList, by omega⟩

/-- A refused plan is reported as a mismatch. -/
theorem checkExpectedPlan_error
    {blockReward : UInt64}
    {plan : PplnsCoinbasePlan}
    {status : P2pPayoutPolicyStatus}
    (refused : checkExpectedPlan backend blockReward plan = .error status) :
    status = .payoutPlanMismatch := by
  unfold checkExpectedPlan at refused
  by_cases early :
      plan.status ≠ .ready ∨ plan.rewardAtomic ≠ blockReward ∨
        plan.destinations = [] ∨
        plan.destinations.length > kCurrentMinerMaxOutputs
  · rw [if_pos early] at refused
    exact (Except.error.inj refused).symm
  · rw [if_neg early] at refused
    rcases except_bind_eq_error.mp refused with walked | ⟨seen, _, compared⟩
    · obtain ⟨destination, _, seen, step⟩ := foldlM_eq_error walked
      unfold checkPlanDestination at step
      simp only at step
      split_ifs at step
      · exact (Except.error.inj step).symm
      · exact (Except.error.inj step).symm
    · simp only at compared
      split_ifs at compared
      exact (Except.error.inj compared).symm

/-- The checks of a plan accept exactly the payable plans of the reward. -/
theorem checkExpectedPlan_eq_ok
    {blockReward : UInt64}
    {plan : PplnsCoinbasePlan} :
    checkExpectedPlan backend blockReward plan = .ok () ↔
      plan.status = .ready ∧ plan.rewardAtomic = blockReward ∧
        PayablePlan backend blockReward plan.destinations := by
  unfold checkExpectedPlan
  by_cases refused :
      plan.status ≠ .ready ∨ plan.rewardAtomic ≠ blockReward ∨
        plan.destinations = [] ∨
        plan.destinations.length > kCurrentMinerMaxOutputs
  · rw [if_pos refused]
    constructor
    · intro accepted
      cases accepted
    · rintro ⟨ready, reward, payable⟩
      rcases refused with unready | other | empty | many
      · exact absurd ready unready
      · exact absurd reward other
      · exact absurd empty payable.some
      · exact absurd payable.few (Nat.not_le.mpr many)
  · rw [if_neg refused, except_bind_eq_ok]
    push Not at refused
    obtain ⟨ready, reward, nonempty, few⟩ := refused
    constructor
    · rintro ⟨⟨seen, total⟩, walked, compared⟩
      obtain ⟨payable, _, _, sameTotal⟩ :=
        foldlM_checkPlanDestination.mp walked
      simp only at compared
      split_ifs at compared with differs
      rw [not_not] at differs
      refine ⟨ready, reward, nonempty, few, payable.distinct, payable.bound,
        payable.nonzero, ?_⟩
      rw [← reward, ← differs]
      simpa using sameTotal.symm
    · rintro ⟨_, _, payable⟩
      have small := blockReward.toNat_lt
      refine ⟨(plan.destinations, blockReward),
        foldlM_checkPlanDestination.mpr ⟨⟨payable.distinct, by simp,
          payable.bound, payable.nonzero⟩, ?_, by simp, ?_⟩, ?_⟩
      · rw [payable.sum]
        simpa using small
      · rw [payable.sum]
        simp
      · simp [reward]

end Plan

section Matching

variable
  (curve : CurveBackend)
  (txSecretKey : ZanoCurveKey)
  (destinations : List PplnsCoinbaseDestination)

/-- Whether an output with its index pays a destination. -/
def paysDestination
    (indexed : PayoutRow × Nat)
    (destination : PplnsCoinbaseDestination) :
    Bool :=
  stealthAddressOf curve txSecretKey destination.payout indexed.2 =
    some indexed.1.output.stealthAddress

/-- Whether an output with its index pays the destination at a position. -/
def paysPosition
    (position : Nat)
    (indexed : PayoutRow × Nat) :
    Bool :=
  destinations[position]?.any (paysDestination curve txSecretKey indexed)

/-- Whether stealth addresses can be derived for all destinations. -/
def Derivable (index : Nat) : Prop :=
  ∀ destination ∈ destinations,
    (stealthAddressOf curve txSecretKey destination.payout index).isSome

/-- The positions of the destinations that an output pays. -/
def matchedPositions
    (indexed : PayoutRow × Nat)
    (numbered : List (PplnsCoinbaseDestination × Nat)) :
    List Nat :=
  (numbered.filter fun entry =>
    paysDestination curve txSecretKey indexed entry.1).map Prod.snd

variable {curve txSecretKey destinations}

/-- An option is determined by its elements. -/
theorem option_eq_of_toList
    {α : Type}
    {first second : Option α}
    (same : first.toList = second.toList) :
    first = second := by
  cases first <;> cases second <;> simp_all

theorem exists_option_of_short
    {α : Type}
    {elements : List α}
    (short : elements.length ≤ 1) :
    ∃ option : Option α, option.toList = elements := by
  match elements, short with
  | [], _ => exact ⟨none, rfl⟩
  | [element], _ => exact ⟨some element, rfl⟩

/-- One step of the inner loop. -/
theorem matchDestination_eq_ok
    {row : PayoutRow}
    {index : Nat}
    {entry : PplnsCoinbaseDestination × Nat}
    {matched next : Option Nat} :
    matchDestination curve txSecretKey index row.output.stealthAddress
        matched entry = .ok next ↔
      (stealthAddressOf curve txSecretKey entry.1.payout index).isSome ∧
      next.toList =
        matched.toList ++
          matchedPositions curve txSecretKey (row, index) [entry] := by
  obtain ⟨destination, position⟩ := entry
  unfold matchDestination
  cases derived : stealthAddressOf curve txSecretKey destination.payout index with
  | none => simp [derived]
  | some expected =>
      by_cases pays : expected = row.output.stealthAddress
      · subst pays
        have positions :
            matchedPositions curve txSecretKey (row, index)
              [(destination, position)] = [position] := by
          simp [matchedPositions, paysDestination, derived]
        rw [positions]
        cases matched with
        | none =>
            simp only [derived, if_true, Option.isSome_none,
              Bool.false_eq_true, if_false, Option.isSome_some, true_and,
              Option.toList_none, List.nil_append, Except.ok.injEq]
            constructor
            · rintro rfl
              rfl
            · intro same
              exact (option_eq_of_toList same).symm
        | some earlier =>
            simp only [derived, if_true, Option.isSome_some,
              Option.toList_some, reduceCtorEq, true_and, false_iff]
            intro same
            have lengths := congrArg List.length same
            cases next <;> simp at lengths
      · have positions :
            matchedPositions curve txSecretKey (row, index)
              [(destination, position)] = [] := by
          simp [matchedPositions, paysDestination, derived, pays]
        rw [positions]
        simp only [derived, pays, if_false, Option.isSome_some, true_and,
          List.append_nil, Except.ok.injEq]
        constructor
        · rintro rfl
          rfl
        · intro same
          exact (option_eq_of_toList same).symm

/-- The inner loop returns the only position that matches. -/
theorem foldlM_matchDestination
    {row : PayoutRow}
    {index : Nat}
    {numbered : List (PplnsCoinbaseDestination × Nat)}
    {matched result : Option Nat} :
    numbered.foldlM
        (matchDestination curve txSecretKey index row.output.stealthAddress)
        matched = .ok result ↔
      Derivable curve txSecretKey (numbered.map Prod.fst) index ∧
      result.toList =
        matched.toList ++
          matchedPositions curve txSecretKey (row, index) numbered := by
  induction numbered generalizing matched with
  | nil =>
      simp only [List.foldlM_nil, Derivable, matchedPositions, List.map_nil,
        List.not_mem_nil, false_implies, implies_true, true_and,
        List.filter_nil, List.append_nil]
      constructor
      · intro ended
        cases ended
        rfl
      · intro same
        rw [option_eq_of_toList same]
        rfl
  | cons entry rest hypothesis =>
      have split :
          matchedPositions curve txSecretKey (row, index) (entry :: rest) =
            matchedPositions curve txSecretKey (row, index) [entry] ++
              matchedPositions curve txSecretKey (row, index) rest := by
        rw [matchedPositions, matchedPositions, matchedPositions,
          ← List.map_append, ← List.filter_append]
        rfl
      have derivable :
          Derivable curve txSecretKey ((entry :: rest).map Prod.fst) index ↔
            (stealthAddressOf curve txSecretKey entry.1.payout index).isSome ∧
              Derivable curve txSecretKey (rest.map Prod.fst) index := by
        simp only [Derivable, List.map_cons, List.forall_mem_cons]
      rw [List.foldlM_cons, except_bind_eq_ok, split, derivable]
      constructor
      · rintro ⟨next, stepped, walked⟩
        obtain ⟨here, found⟩ := matchDestination_eq_ok.mp stepped
        obtain ⟨later, positions⟩ := hypothesis.mp walked
        exact ⟨⟨here, later⟩, by rw [positions, found, List.append_assoc]⟩
      · rintro ⟨⟨here, later⟩, positions⟩
        rw [← List.append_assoc] at positions
        have short :
            (matched.toList ++
              matchedPositions curve txSecretKey (row, index)
                [entry]).length ≤ 1 := by
          have lengths := congrArg List.length positions
          rw [List.length_append] at lengths
          have one : result.toList.length ≤ 1 := by
            cases result <;> simp
          omega
        obtain ⟨next, found⟩ := exists_option_of_short short
        refine ⟨next, matchDestination_eq_ok.mpr ⟨here, found⟩,
          hypothesis.mpr ⟨later, ?_⟩⟩
        rw [positions, found]

theorem mem_matchedPositions
    {indexed : PayoutRow × Nat}
    {position : Nat} :
    position ∈
        matchedPositions curve txSecretKey indexed destinations.zipIdx ↔
      paysPosition curve txSecretKey destinations position indexed = true := by
  simp only [matchedPositions, List.mem_map, List.mem_filter,
    paysPosition, Option.any_eq_true]
  constructor
  · rintro ⟨⟨destination, place⟩, ⟨member, pays⟩, rfl⟩
    exact ⟨destination, List.mem_zipIdx_iff_getElem?.mp member, pays⟩
  · rintro ⟨destination, found, pays⟩
    exact ⟨(destination, position),
      ⟨List.mem_zipIdx_iff_getElem?.mpr found, pays⟩, rfl⟩

theorem nodup_matchedPositions
    {indexed : PayoutRow × Nat} :
    (matchedPositions curve txSecretKey indexed destinations.zipIdx).Nodup := by
  apply List.Nodup.sublist (List.filter_sublist.map Prod.snd)
  rw [List.zipIdx_map_snd]
  exact List.nodup_range'

/-- A loop over the destinations finds one position exactly if it is the only
one that the output pays. -/
theorem matchDestinations_eq_ok
    {row : PayoutRow}
    {index position : Nat} :
    destinations.zipIdx.foldlM
        (matchDestination curve txSecretKey index row.output.stealthAddress)
        none = .ok (some position) ↔
      Derivable curve txSecretKey destinations index ∧
      ∀ other,
        paysPosition curve txSecretKey destinations other (row, index) = true ↔
          other = position := by
  rw [foldlM_matchDestination, List.zipIdx_map_fst]
  simp only [Option.toList_some, Option.toList_none, List.nil_append]
  apply and_congr_right
  intro _
  constructor
  · intro positions other
    rw [← mem_matchedPositions, ← positions, List.mem_singleton]
  · intro only
    have same :
        (matchedPositions curve txSecretKey (row, index)
          destinations.zipIdx).Perm [position] := by
      rw [List.perm_ext_iff_of_nodup nodup_matchedPositions
        (List.nodup_singleton position)]
      intro other
      rw [mem_matchedPositions, only, List.mem_singleton]
    exact (List.perm_singleton.mp same).symm

end Matching

section Tally

variable
  (curve : CurveBackend)
  (txSecretKey : ZanoCurveKey)
  (destinations : List PplnsCoinbaseDestination)

/-- Sum of the amounts of outputs. -/
def rowSum (rows : List (PayoutRow × Nat)) : Nat :=
  (rows.map fun indexed => indexed.1.amount.toNat).sum

/-- Sum of the amounts of the outputs that pay the destination at a position. -/
def creditedTo
    (rows : List (PayoutRow × Nat))
    (position : Nat) :
    Nat :=
  rowSum (rows.filter
    (paysPosition curve txSecretKey destinations position))

/-- An output that passes every check of its own. -/
structure RowPays (indexed : PayoutRow × Nat) : Prop where
  native : indexed.1.native = true
  committed : indexed.1.committed curve = true
  derivable : Derivable curve txSecretKey destinations indexed.2
  pays :
    ∃! position,
      paysPosition curve txSecretKey destinations position indexed = true

/-- Add an amount to one destination and to the reward. -/
def PayoutTally.credit
    (tally : PayoutTally)
    (position : Nat)
    (amount : UInt64) :
    PayoutTally where
  credited := tally.credited.modify position (· + amount)
  rewardSum := tally.rewardSum + amount

/-- The second tally adds the outputs to the first, without a carry. -/
structure Tallies
    (start next : PayoutTally)
    (rows : List (PayoutRow × Nat)) :
    Prop where
  sized : next.credited.length = start.credited.length
  total : next.rewardSum.toNat = start.rewardSum.toNat + rowSum rows
  each :
    ∀ position,
      (next.credited.getD position 0).toNat =
        (start.credited.getD position 0).toNat +
          creditedTo curve txSecretKey destinations rows position

variable {curve txSecretKey destinations}

@[simp] theorem rowSum_append (first second : List (PayoutRow × Nat)) :
    rowSum (first ++ second) = rowSum first + rowSum second := by
  simp [rowSum]

@[simp] theorem creditedTo_append
    (first second : List (PayoutRow × Nat))
    (position : Nat) :
    creditedTo curve txSecretKey destinations (first ++ second) position =
      creditedTo curve txSecretKey destinations first position +
        creditedTo curve txSecretKey destinations second position := by
  simp [creditedTo]

theorem creditedTo_singleton
    (indexed : PayoutRow × Nat)
    (position : Nat) :
    creditedTo curve txSecretKey destinations [indexed] position =
      if paysPosition curve txSecretKey destinations position indexed then
        indexed.1.amount.toNat
      else 0 := by
  unfold creditedTo rowSum
  split_ifs with pays <;> simp [pays]

theorem lt_length_of_paysPosition
    {indexed : PayoutRow × Nat}
    {position : Nat}
    (pays :
      paysPosition curve txSecretKey destinations position indexed = true) :
    position < destinations.length := by
  unfold paysPosition at pays
  obtain ⟨destination, found, _⟩ := (Option.any_eq_true _ _).mp pays
  exact (List.getElem?_eq_some_iff.mp found).1

namespace Tallies

variable {start middle next : PayoutTally}
variable {first second : List (PayoutRow × Nat)}

theorem trans
    (before : Tallies curve txSecretKey destinations start middle first)
    (after : Tallies curve txSecretKey destinations middle next second) :
    Tallies curve txSecretKey destinations start next (first ++ second) where
  sized := after.sized.trans before.sized
  total := by
    rw [after.total, before.total, rowSum_append]
    omega
  each := fun position => by
    rw [after.each, before.each, creditedTo_append]
    omega

/-- What is left to add after the first outputs. -/
theorem cancel
    (before : Tallies curve txSecretKey destinations start middle first)
    (whole :
      Tallies curve txSecretKey destinations start next (first ++ second)) :
    Tallies curve txSecretKey destinations middle next second where
  sized := whole.sized.trans before.sized.symm
  total := by
    have total := whole.total
    rw [rowSum_append] at total
    rw [before.total]
    omega
  each := fun position => by
    have each := whole.each position
    rw [creditedTo_append] at each
    rw [before.each]
    omega

/-- A tally is determined by its lengths and numbers. -/
theorem nil_iff :
    Tallies curve txSecretKey destinations start next [] ↔ next = start := by
  constructor
  · intro tallies
    obtain ⟨credited, rewardSum⟩ := start
    obtain ⟨otherCredited, otherSum⟩ := next
    have sums : otherSum = rewardSum :=
      UInt64.toNat_inj.mp (by simpa [rowSum] using tallies.total)
    have lists : otherCredited = credited := by
      apply List.ext_getElem tallies.sized
      intro position before after
      have each := tallies.each position
      simp only [List.getD_eq_getElem?_getD, List.getElem?_eq_getElem before,
        List.getElem?_eq_getElem after, Option.getD_some] at each
      exact UInt64.toNat_inj.mp (by simpa [creditedTo, rowSum] using each)
    rw [sums, lists]
  · rintro rfl
    exact ⟨rfl, by simp [rowSum], by simp [creditedTo, rowSum]⟩

/-- Crediting the paid destination adds one output. -/
theorem credit
    {tally : PayoutTally}
    {indexed : PayoutRow × Nat}
    {position : Nat}
    (sized : tally.credited.length = destinations.length)
    (only :
      ∀ other,
        paysPosition curve txSecretKey destinations other indexed = true ↔
          other = position)
    (totalFits :
      indexed.1.amount.toNat + tally.rewardSum.toNat < 2 ^ 64)
    (creditFits :
      indexed.1.amount.toNat +
        (tally.credited.getD position 0).toNat < 2 ^ 64) :
    Tallies curve txSecretKey destinations tally
      (tally.credit position indexed.1.amount) [indexed] where
  sized := by simp [PayoutTally.credit]
  total := by
    simp only [PayoutTally.credit, toNat_add_of_fits totalFits]
    simp [rowSum]
  each := fun other => by
    have inside : position < tally.credited.length := by
      rw [sized]
      exact lt_length_of_paysPosition ((only position).mpr rfl)
    rw [creditedTo_singleton]
    simp only [PayoutTally.credit, List.getD_eq_getElem?_getD,
      List.getElem?_modify] at creditFits ⊢
    by_cases here : other = position
    · subst here
      rw [List.getElem?_eq_getElem inside, Option.getD_some] at creditFits
      rw [if_pos ((only other).mpr rfl), List.getElem?_eq_getElem inside]
      simp only [if_true, Option.map_eq_map, Option.map_some,
        Option.getD_some]
      exact toNat_add_of_fits creditFits
    · have unpaid :
          ¬ paysPosition curve txSecretKey destinations other indexed =
            true := fun pays => here ((only other).mp pays)
      rw [if_neg unpaid]
      simp [Ne.symm here]

end Tallies

theorem creditPayoutRow_eq_ok
    {tally next : PayoutTally}
    {indexed : PayoutRow × Nat} :
    creditPayoutRow curve txSecretKey destinations tally indexed = .ok next ↔
      indexed.1.native = true ∧
      Derivable curve txSecretKey destinations indexed.2 ∧
      indexed.1.committed curve = true ∧
      ∃ position,
        (∀ other,
          paysPosition curve txSecretKey destinations other indexed = true ↔
            other = position) ∧
        indexed.1.amount.toNat + tally.rewardSum.toNat < 2 ^ 64 ∧
        indexed.1.amount.toNat +
          (tally.credited.getD position 0).toNat < 2 ^ 64 ∧
        next = tally.credit position indexed.1.amount := by
  obtain ⟨row, index⟩ := indexed
  unfold creditPayoutRow
  simp only [Bool.not_eq_true']
  cases native : row.native with
  | false => simp
  | true =>
      rw [if_neg (by simp), except_bind_eq_ok]
      constructor
      · rintro ⟨matched, walked, rest⟩
        cases matched with
        | none => cases rest
        | some position =>
            obtain ⟨derivable, only⟩ := matchDestinations_eq_ok.mp walked
            simp only at rest
            cases committed : row.committed curve with
            | false =>
                rw [if_pos committed] at rest
                cases rest
            | true =>
                rw [if_neg (by simp [committed])] at rest
                by_cases overflow :
                    row.amount > kMaxU64 - tally.rewardSum ∨
                      row.amount > kMaxU64 - tally.credited.getD position 0
                · rw [if_pos overflow] at rest
                  cases rest
                · rw [if_neg overflow] at rest
                  rw [not_or, fits_of_le_kMaxU64_sub,
                    fits_of_le_kMaxU64_sub] at overflow
                  exact ⟨rfl, derivable, rfl, position, only, overflow.1,
                    overflow.2, (Except.ok.inj rest).symm⟩
      · rintro ⟨_, derivable, committed, position, only, totalFits, creditFits,
          rfl⟩
        refine ⟨some position,
          matchDestinations_eq_ok.mpr ⟨derivable, only⟩, ?_⟩
        have fits :
            ¬ (row.amount > kMaxU64 - tally.rewardSum ∨
              row.amount > kMaxU64 - tally.credited.getD position 0) := by
          rw [not_or, fits_of_le_kMaxU64_sub, fits_of_le_kMaxU64_sub]
          exact ⟨totalFits, creditFits⟩
        simp only
        rw [if_neg (by simp [committed]), if_neg fits]
        rfl

/-- The loop over the outputs adds them up if each of them pays. -/
theorem foldlM_creditPayoutRow
    {rows : List (PayoutRow × Nat)}
    {tally next : PayoutTally}
    (sized : tally.credited.length = destinations.length) :
    rows.foldlM (creditPayoutRow curve txSecretKey destinations) tally =
        .ok next ↔
      (∀ indexed ∈ rows, RowPays curve txSecretKey destinations indexed) ∧
      Tallies curve txSecretKey destinations tally next rows := by
  induction rows generalizing tally with
  | nil =>
      rw [Tallies.nil_iff]
      simp only [List.foldlM_nil, List.not_mem_nil, false_implies,
        implies_true, true_and]
      constructor
      · intro ended
        exact (Except.ok.inj ended).symm
      · rintro rfl
        rfl
  | cons indexed rest hypothesis =>
      rw [List.foldlM_cons, except_bind_eq_ok, List.forall_mem_cons]
      constructor
      · rintro ⟨middle, credited, walked⟩
        obtain ⟨native, derivable, committed, position, only, totalFits,
          creditFits, rfl⟩ := creditPayoutRow_eq_ok.mp credited
        have step : Tallies curve txSecretKey destinations _ _ [indexed] :=
          Tallies.credit sized only totalFits creditFits
        obtain ⟨pays, tallies⟩ :=
          (hypothesis (step.sized.trans sized)).mp walked
        refine ⟨⟨⟨native, committed, derivable, position,
          (only position).mpr rfl, ?_⟩, pays⟩, step.trans tallies⟩
        intro other otherPays
        exact (only other).mp otherPays
      · rintro ⟨⟨⟨native, committed, derivable, position, paid, unique⟩,
          pays⟩, tallies⟩
        have only :
            ∀ other,
              paysPosition curve txSecretKey destinations other indexed =
                true ↔ other = position := fun other =>
          ⟨unique other, fun same => same ▸ paid⟩
        have whole :
            Tallies curve txSecretKey destinations tally next
              ([indexed] ++ rest) := tallies
        have totalFits :
            indexed.1.amount.toNat + tally.rewardSum.toNat < 2 ^ 64 := by
          have bound := next.rewardSum.toNat_lt
          rw [whole.total, rowSum_append] at bound
          simp only [rowSum, List.map_cons, List.map_nil,
            List.sum_singleton] at bound
          omega
        have creditFits :
            indexed.1.amount.toNat +
              (tally.credited.getD position 0).toNat < 2 ^ 64 := by
          have bound := (next.credited.getD position 0).toNat_lt
          rw [whole.each, creditedTo_append, creditedTo_singleton,
            if_pos paid] at bound
          omega
        have step : Tallies curve txSecretKey destinations _ _ [indexed] :=
          Tallies.credit sized only totalFits creditFits
        exact ⟨_, creditPayoutRow_eq_ok.mpr ⟨native, derivable, committed,
          position, only, totalFits, creditFits, rfl⟩,
          (hypothesis (step.sized.trans sized)).mpr
            ⟨pays, step.cancel whole⟩⟩

end Tally

section Exact

variable {curve : CurveBackend} {txSecretKey : ZanoCurveKey}
variable {destinations : List PplnsCoinbaseDestination}

/-- The outputs pay every destination exactly its amount. -/
structure PaysExactly
    (curve : CurveBackend)
    (txSecretKey : ZanoCurveKey)
    (destinations : List PplnsCoinbaseDestination)
    (rows : List PayoutRow) :
    Prop where
  native : ∀ row ∈ rows, row.native = true
  committed : ∀ row ∈ rows, row.committed curve = true
  pays :
    ∀ indexed ∈ rows.zipIdx,
      ∃! position,
        paysPosition curve txSecretKey destinations position indexed = true
  amounts :
    ∀ position destination,
      destinations[position]? = some destination →
        creditedTo curve txSecretKey destinations rows.zipIdx position =
          destination.amount.toNat

/-- Every output is credited to one destination. -/
theorem sum_creditedTo
    {rows : List (PayoutRow × Nat)}
    (pays :
      ∀ indexed ∈ rows,
        ∃! position,
          paysPosition curve txSecretKey destinations position indexed =
            true) :
    ∑ position ∈ Finset.range destinations.length,
        creditedTo curve txSecretKey destinations rows position =
      rowSum rows := by
  induction rows with
  | nil => simp [creditedTo, rowSum]
  | cons indexed rest hypothesis =>
      rw [List.forall_mem_cons] at pays
      obtain ⟨position, paid, unique⟩ := pays.1
      have head :
          ∑ place ∈ Finset.range destinations.length,
              creditedTo curve txSecretKey destinations [indexed] place =
            indexed.1.amount.toNat := by
        rw [Finset.sum_eq_single position]
        · rw [creditedTo_singleton, if_pos paid]
        · intro other _ differs
          rw [creditedTo_singleton]
          exact if_neg fun otherPaid => differs (unique other otherPaid)
        · intro outside
          exact absurd (lt_length_of_paysPosition paid)
            (by simpa using outside)
      have split :
          ∀ place,
            creditedTo curve txSecretKey destinations (indexed :: rest) place =
              creditedTo curve txSecretKey destinations [indexed] place +
                creditedTo curve txSecretKey destinations rest place :=
        fun place => creditedTo_append [indexed] rest place
      simp only [split, Finset.sum_add_distrib, head, hypothesis pays.2]
      simp [rowSum]

/-- Exact payments add up to the sum of the destinations. -/
theorem PaysExactly.rowSum_eq
    {rows : List PayoutRow}
    (exact : PaysExactly curve txSecretKey destinations rows) :
    rowSum rows.zipIdx = destinationSum destinations := by
  rw [← sum_creditedTo exact.pays, Finset.sum_range, destinationSum,
    ← Fin.sum_univ_fun_getElem]
  apply Finset.sum_congr rfl
  intro position _
  exact exact.amounts position _ (List.getElem?_eq_getElem position.isLt)

/--
Whether a stealth address can be derived does not depend on the index of the
output: it is `Hs(8 r V, index) G + S` whenever both keys are points.
-/
def DerivesAtEveryIndex (curve : CurveBackend) : Prop :=
  ∀ secret spend view index other,
    (curve.deriveOutputPublicKey secret spend view index).isSome →
      (curve.deriveOutputPublicKey secret spend view other).isSome

/-- A destination that is paid at some index can be derived at all of them. -/
theorem PaysExactly.derivable
    {rows : List PayoutRow}
    (exact : PaysExactly curve txSecretKey destinations rows)
    (derives : DerivesAtEveryIndex curve)
    (nonzero : ∀ destination ∈ destinations, destination.amount ≠ 0)
    (index : Nat) :
    Derivable curve txSecretKey destinations index := by
  intro destination member
  obtain ⟨position, found⟩ := List.mem_iff_getElem?.mp member
  have credited := exact.amounts position destination found
  have paid :
      (rows.zipIdx.filter
        (paysPosition curve txSecretKey destinations position)) ≠ [] := by
    intro none
    rw [creditedTo, none] at credited
    have zero : destination.amount = 0 :=
      UInt64.toNat_inj.mp (by simpa [rowSum] using credited.symm)
    exact nonzero destination member zero
  obtain ⟨indexed, inFilter⟩ := List.exists_mem_of_ne_nil _ paid
  have pays := (List.mem_filter.mp inFilter).2
  unfold paysPosition at pays
  rw [found, Option.any_some] at pays
  have derived := of_decide_eq_true pays
  exact derives _ _ _ indexed.2 index
    (by rw [stealthAddressOf] at derived; rw [derived]; rfl)

/-- The first tally of a plan. -/
def emptyTally (destinations : List PplnsCoinbaseDestination) : PayoutTally where
  credited := destinations.map fun _ => 0
  rewardSum := 0

theorem getD_emptyTally (position : Nat) :
    (emptyTally destinations).credited.getD position 0 = 0 := by
  simp only [emptyTally, List.getD_eq_getElem?_getD, List.getElem?_map]
  cases destinations[position]? <;> rfl

/--
The loop over the outputs ends with the amounts of the destinations exactly if the
outputs pay them and every stealth address can be derived.
-/
theorem creditPayoutRows_eq_ok
    {rows : List PayoutRow}
    {tally : PayoutTally} :
    (rows.zipIdx.foldlM (creditPayoutRow curve txSecretKey destinations)
        (emptyTally destinations) = .ok tally ∧
      tally.credited = destinations.map PplnsCoinbaseDestination.amount) ↔
      PaysExactly curve txSecretKey destinations rows ∧
      (∀ index < rows.length,
        Derivable curve txSecretKey destinations index) ∧
      tally.rewardSum.toNat = rowSum rows.zipIdx ∧
      tally.credited = destinations.map PplnsCoinbaseDestination.amount := by
  have sized :
      (emptyTally destinations).credited.length = destinations.length := by
    simp [emptyTally]
  rw [foldlM_creditPayoutRow sized]
  constructor
  · rintro ⟨⟨pays, tallies⟩, credited⟩
    have member :
        ∀ index, index < rows.length →
          ∃ row, (row, index) ∈ rows.zipIdx := fun index inside =>
      ⟨rows[index], List.mem_zipIdx_iff_getElem?.mpr
        (List.getElem?_eq_getElem inside)⟩
    have indexOf :
        ∀ row ∈ rows, ∃ index, (row, index) ∈ rows.zipIdx := by
      intro row inRows
      obtain ⟨index, found⟩ := List.mem_iff_getElem?.mp inRows
      exact ⟨index, List.mem_zipIdx_iff_getElem?.mpr found⟩
    refine ⟨⟨?_, ?_, fun indexed inRows => (pays indexed inRows).pays, ?_⟩,
      ?_, ?_, credited⟩
    · intro row inRows
      obtain ⟨index, found⟩ := indexOf row inRows
      exact (pays _ found).native
    · intro row inRows
      obtain ⟨index, found⟩ := indexOf row inRows
      exact (pays _ found).committed
    · intro position destination found
      have each := tallies.each position
      rw [credited, getD_emptyTally, List.getD_eq_getElem?_getD,
        List.getElem?_map, found] at each
      simpa using each.symm
    · intro index inside
      obtain ⟨row, found⟩ := member index inside
      exact (pays _ found).derivable
    · simpa [emptyTally] using tallies.total
  · rintro ⟨exact, derivable, total, credited⟩
    refine ⟨⟨?_, ?_, ?_, ?_⟩, credited⟩
    · rintro ⟨row, index⟩ member
      have found := List.mem_zipIdx_iff_getElem?.mp member
      have inside := (List.getElem?_eq_some_iff.mp found).1
      have inRows := List.mem_of_getElem? found
      exact ⟨exact.native row inRows, exact.committed row inRows,
        derivable index inside, exact.pays _ member⟩
    · rw [credited, sized, List.length_map]
    · simpa [emptyTally] using total
    · intro position
      rw [credited, getD_emptyTally, List.getD_eq_getElem?_getD,
        List.getElem?_map]
      cases found : destinations[position]? with
      | some destination =>
          simpa using (exact.amounts position destination found).symm
      | none =>
          have unpaid :
              rows.zipIdx.filter
                (paysPosition curve txSecretKey destinations position) = [] := by
            apply List.filter_eq_nil_iff.mpr
            intro indexed _ pays
            rw [paysPosition, found] at pays
            cases pays
          rw [creditedTo, unpaid]
          rfl

end Exact

section Verified

variable {backend : Backend} {curve : CurveBackend} {json : JsonBackend}
variable {minerTxPrefix minerTxTgcJson : List UInt8}

/-- What the prefix and the text of a proposal hold. -/
structure ReadsPayout
    (json : JsonBackend)
    (minerTxPrefix minerTxTgcJson : List UInt8)
    (outputs : List ParsedPayoutOutput)
    (tgc : ParsedTgcPayoutData) :
    Prop where
  parsed : parseCurrentOutputs minerTxPrefix = .ok outputs
  atLeastTwo : 2 ≤ outputs.length
  atMost : outputs.length ≤ 32
  parsedTgc : parseTgcPayoutData json minerTxTgcJson = .ok tgc
  amounts : tgc.amounts.length = outputs.length
  amountMasks : tgc.amountBlindingMasks.length = outputs.length
  assetMasks : tgc.assetIdBlindingMasks.length = outputs.length

theorem readPayoutRows_eq_ok
    {result : P2pPayoutPolicyResult}
    {read : P2pPayoutPolicyResult × ZanoCurveKey × List PayoutRow} :
    readPayoutRows json minerTxPrefix minerTxTgcJson result = .ok read ↔
      ∃ outputs tgc,
        ReadsPayout json minerTxPrefix minerTxTgcJson outputs tgc ∧
        read = ({ result with outputCount := outputs.length },
          tgc.txSecretKey, payoutRows outputs tgc) := by
  unfold readPayoutRows
  cases parsed : parseCurrentOutputs minerTxPrefix with
  | error thrown =>
      simp only [reduceCtorEq, false_iff]
      rintro ⟨outputs, tgc, reads, _⟩
      exact absurd (parsed.symm.trans reads.parsed) (by simp)
  | ok outputs =>
      simp only
      by_cases count :
          outputs.length < kCurrentMinerMinOutputs ∨
            outputs.length > kCurrentMinerMaxOutputs
      · rw [if_pos count]
        simp only [reduceCtorEq, false_iff]
        rintro ⟨found, tgc, reads, _⟩
        obtain rfl := Except.ok.inj (parsed.symm.trans reads.parsed)
        have atLeastTwo := reads.atLeastTwo
        have atMost := reads.atMost
        unfold kCurrentMinerMinOutputs kCurrentMinerMaxOutputs at count
        omega
      · rw [if_neg count]
        unfold kCurrentMinerMinOutputs kCurrentMinerMaxOutputs at count
        cases text : parseTgcPayoutData json minerTxTgcJson with
        | error thrown =>
            simp only [reduceCtorEq, false_iff]
            rintro ⟨found, tgc, reads, _⟩
            exact absurd (text.symm.trans reads.parsedTgc) (by simp)
        | ok tgc =>
            simp only
            by_cases sizes :
                tgc.amounts.length ≠ outputs.length ∨
                  tgc.amountBlindingMasks.length ≠ outputs.length ∨
                  tgc.assetIdBlindingMasks.length ≠ outputs.length
            · rw [if_pos sizes]
              simp only [reduceCtorEq, false_iff]
              rintro ⟨found, other, reads, _⟩
              obtain rfl := Except.ok.inj (parsed.symm.trans reads.parsed)
              obtain rfl := Except.ok.inj (text.symm.trans reads.parsedTgc)
              rcases sizes with differs | differs | differs
              · exact differs reads.amounts
              · exact differs reads.amountMasks
              · exact differs reads.assetMasks
            · rw [if_neg sizes]
              push Not at sizes
              constructor
              · intro same
                exact ⟨outputs, tgc, ⟨parsed, by omega, by omega, text,
                  sizes.1, sizes.2.1, sizes.2.2⟩, (Except.ok.inj same).symm⟩
              · rintro ⟨found, other, reads, rfl⟩
                obtain rfl := Except.ok.inj (parsed.symm.trans reads.parsed)
                obtain rfl := Except.ok.inj (text.symm.trans reads.parsedTgc)
                rfl

/-- Early returns of the first checks carry their own statuses. -/
theorem checkPayoutBinding_error
    {rewardWithoutFee reward : UInt64}
    {result : P2pPayoutPolicyResult}
    (refused :
      checkPayoutBinding curve json minerTxPrefix minerTxTgcJson
        rewardWithoutFee reward = .error result) :
    result.status = .backendUnavailable ∨
      result.status = .keyBindingFailed ∨
      result.status = .rewardMetadataMismatch := by
  unfold checkPayoutBinding at refused
  simp only at refused
  split_ifs at refused with unbound unavailable noBackend metadata
  · obtain rfl := Except.error.inj refused
    exact .inl rfl
  · obtain rfl := Except.error.inj refused
    exact .inr (.inl rfl)
  · obtain rfl := Except.error.inj refused
    exact .inl rfl
  · obtain rfl := Except.error.inj refused
    exact .inr (.inr rfl)

theorem checkPayoutBinding_eq_ok
    {rewardWithoutFee reward : UInt64}
    {result : P2pPayoutPolicyResult} :
    checkPayoutBinding curve json minerTxPrefix minerTxTgcJson
        rewardWithoutFee reward = .ok result ↔
      (verifyMinerTxTgcKeyBinding curve json minerTxPrefix
        minerTxTgcJson).status = .verified ∧
      curve.available = true ∧ rewardWithoutFee ≠ 0 ∧
      reward = rewardWithoutFee ∧
      result = { bindingStatus := .verified } := by
  unfold checkPayoutBinding
  simp only
  by_cases bound :
      (verifyMinerTxTgcKeyBinding curve json minerTxPrefix
        minerTxTgcJson).status = .verified
  · rw [if_neg (not_not.mpr bound), bound]
    cases available : curve.available with
    | false => simp
    | true =>
        by_cases metadata : rewardWithoutFee = 0 ∨ reward ≠ rewardWithoutFee
        · rw [if_neg (by simp), if_pos metadata]
          simp only [reduceCtorEq, true_and, false_iff]
          rintro ⟨nonzero, same, _⟩
          rcases metadata with zero | differs
          · exact nonzero zero
          · exact differs same
        · rw [if_neg (by simp), if_neg metadata]
          push Not at metadata
          simp [metadata.1, metadata.2, eq_comm]
  · rw [if_pos bound]
    simp [bound]

theorem available_of_keyBinding
    (bound :
      (verifyMinerTxTgcKeyBinding curve json minerTxPrefix
        minerTxTgcJson).status = .verified) :
    curve.available = true := by
  unfold verifyMinerTxTgcKeyBinding at bound
  cases available : curve.available with
  | true => rfl
  | false =>
      rw [available] at bound
      split at bound
      · cases bound
      · split at bound
        · cases bound
        · cases bound

/-- A refusal before the outputs are examined is not about them. -/
theorem readPayoutRows_error
    {result refusal : P2pPayoutPolicyResult}
    (refused :
      readPayoutRows json minerTxPrefix minerTxTgcJson result =
        .error refusal) :
    refusal.status ≠ .verified ∧ refusal.status ≠ .payoutPlanMismatch := by
  unfold readPayoutRows at refused
  split at refused
  · obtain rfl := Except.error.inj refused
    simp
  · simp only at refused
    split_ifs at refused with count
    · obtain rfl := Except.error.inj refused
      simp
    · split at refused
      · obtain rfl := Except.error.inj refused
        simp
      · split_ifs at refused
        obtain rfl := Except.error.inj refused
        simp

/-- An output is never refused as verified. -/
theorem creditPayoutRow_error
    {txSecretKey : ZanoCurveKey}
    {destinations : List PplnsCoinbaseDestination}
    {tally : PayoutTally}
    {indexed : PayoutRow × Nat}
    {status : P2pPayoutPolicyStatus}
    (refused :
      creditPayoutRow curve txSecretKey destinations tally indexed =
        .error status) :
    status ≠ .verified := by
  obtain ⟨row, index⟩ := indexed
  unfold creditPayoutRow at refused
  simp only at refused
  by_cases foreign : (!row.native) = true
  · rw [if_pos foreign] at refused
    obtain rfl := Except.error.inj refused
    simp
  · rw [if_neg foreign] at refused
    rcases except_bind_eq_error.mp refused with walked | ⟨matched, _, rest⟩
    · obtain ⟨entry, _, matched, step⟩ := foldlM_eq_error walked
      unfold matchDestination at step
      simp only at step
      split at step
      · obtain rfl := Except.error.inj step
        simp
      · split_ifs at step
        obtain rfl := Except.error.inj step
        simp
    · split at rest
      · obtain rfl := Except.error.inj rest
        simp
      · split_ifs at rest
        · obtain rfl := Except.error.inj rest
          simp
        · obtain rfl := Except.error.inj rest
          simp

/-- The outputs are accepted exactly if they pay the plan. -/
theorem settlePayoutPlan_verified_iff
    {reward : UInt64}
    {plan : PplnsCoinbasePlan}
    {result : P2pPayoutPolicyResult}
    {txSecretKey : ZanoCurveKey}
    {rows : List PayoutRow}
    (payable : PayablePlan backend reward plan.destinations) :
    (settlePayoutPlan curve reward plan result txSecretKey rows).status =
        .verified ↔
      PaysExactly curve txSecretKey plan.destinations rows ∧
      ∀ index < rows.length,
        Derivable curve txSecretKey plan.destinations index := by
  unfold settlePayoutPlan
  constructor
  · intro verified
    split at verified
    · next status walked =>
        obtain ⟨indexed, _, tally, step⟩ := foldlM_eq_error walked
        exact absurd verified (creditPayoutRow_error step)
    · next tally walked =>
        simp only at verified
        split_ifs at verified with total credited
        obtain ⟨exact, derivable, _⟩ :=
          creditPayoutRows_eq_ok.mp ⟨walked, not_not.mp credited⟩
        exact ⟨exact, derivable⟩
  · rintro ⟨exact, derivable⟩
    have total : reward.toNat = rowSum rows.zipIdx := by
      rw [exact.rowSum_eq, payable.sum]
    have walked := (@creditPayoutRows_eq_ok curve txSecretKey
      plan.destinations rows
      { credited := plan.destinations.map PplnsCoinbaseDestination.amount
        rewardSum := reward }).mpr ⟨exact, derivable, total, rfl⟩
    unfold emptyTally at walked
    rw [walked.1]
    simp

/-- When the plan form of the policy verifies a miner transaction. -/
theorem verifyMinerTxPayoutPolicy_verified_iff
    {rewardWithoutFee reward fee : UInt64}
    {plan : PplnsCoinbasePlan} :
    (verifyMinerTxPayoutPolicy backend curve json minerTxPrefix minerTxTgcJson
        rewardWithoutFee reward fee plan).status = .verified ↔
      (verifyMinerTxTgcKeyBinding curve json minerTxPrefix
        minerTxTgcJson).status = .verified ∧
      rewardWithoutFee ≠ 0 ∧ reward = rewardWithoutFee ∧
      checkExpectedPlan backend reward plan = .ok () ∧
      ∃ outputs tgc,
        ReadsPayout json minerTxPrefix minerTxTgcJson outputs tgc ∧
        PaysExactly curve tgc.txSecretKey plan.destinations
          (payoutRows outputs tgc) ∧
        ∀ index < (payoutRows outputs tgc).length,
          Derivable curve tgc.txSecretKey plan.destinations index := by
  unfold verifyMinerTxPayoutPolicy
  cases started : checkPayoutBinding curve json minerTxPrefix minerTxTgcJson
      rewardWithoutFee reward with
  | error refusal =>
      have refused := checkPayoutBinding_error started
      simp only
      constructor
      · intro verified
        rw [verified] at refused
        simp at refused
      · rintro ⟨bound, nonzero, same, _⟩
        have accepted := checkPayoutBinding_eq_ok.mpr
          ⟨bound, available_of_keyBinding bound, nonzero, same, rfl⟩
        rw [started] at accepted
        cases accepted
  | ok result =>
      obtain ⟨bound, _, nonzero, same, _⟩ := checkPayoutBinding_eq_ok.mp started
      simp only
      cases checked : checkExpectedPlan backend reward plan with
      | error status =>
          obtain rfl := checkExpectedPlan_error checked
          simp
      | ok unit =>
          obtain ⟨_, _, payable⟩ := checkExpectedPlan_eq_ok.mp checked
          simp only [bound, nonzero, same, ne_eq, not_false_eq_true, true_and]
          cases read : readPayoutRows json minerTxPrefix minerTxTgcJson
              result with
          | error refusal =>
              simp only
              constructor
              · intro verified
                exact absurd verified (readPayoutRows_error read).1
              · rintro ⟨outputs, tgc, reads, _⟩
                have accepted := (@readPayoutRows_eq_ok json minerTxPrefix
                  minerTxTgcJson result _).mpr ⟨outputs, tgc, reads, rfl⟩
                rw [read] at accepted
                cases accepted
          | ok rows =>
              obtain ⟨outputs, tgc, reads, rfl⟩ := readPayoutRows_eq_ok.mp read
              simp only
              rw [← same, settlePayoutPlan_verified_iff payable]
              constructor
              · rintro ⟨exact, derivable⟩
                exact ⟨outputs, tgc, reads, exact, derivable⟩
              · rintro ⟨found, other, readsOther, exact, derivable⟩
                obtain rfl := Except.ok.inj
                  (reads.parsed.symm.trans readsOther.parsed)
                obtain rfl := Except.ok.inj
                  (reads.parsedTgc.symm.trans readsOther.parsedTgc)
                exact ⟨exact, derivable⟩

/-- A plan that passes its checks is refused only after the outputs are read. -/
theorem readsPayout_of_payoutPlanMismatch
    {rewardWithoutFee reward fee : UInt64}
    {plan : PplnsCoinbasePlan}
    (checked : checkExpectedPlan backend reward plan = .ok ())
    (mismatch :
      (verifyMinerTxPayoutPolicy backend curve json minerTxPrefix
        minerTxTgcJson rewardWithoutFee reward fee plan).status =
          .payoutPlanMismatch) :
    ∃ outputs tgc,
      ReadsPayout json minerTxPrefix minerTxTgcJson outputs tgc := by
  unfold verifyMinerTxPayoutPolicy at mismatch
  rw [checked] at mismatch
  cases started : checkPayoutBinding curve json minerTxPrefix minerTxTgcJson
      rewardWithoutFee reward with
  | error refusal =>
      rw [started] at mismatch
      have refused := checkPayoutBinding_error started
      rw [mismatch] at refused
      simp at refused
  | ok result =>
      rw [started] at mismatch
      cases read : readPayoutRows json minerTxPrefix minerTxTgcJson result with
      | error refusal =>
          simp only [read] at mismatch
          exact absurd mismatch (readPayoutRows_error read).2
      | ok rows =>
          obtain ⟨outputs, tgc, reads, _⟩ := readPayoutRows_eq_ok.mp read
          exact ⟨outputs, tgc, reads⟩

/-- Every output of the prefix has its row. -/
theorem ReadsPayout.outputs_rows
    {outputs : List ParsedPayoutOutput}
    {tgc : ParsedTgcPayoutData}
    (reads : ReadsPayout json minerTxPrefix minerTxTgcJson outputs tgc) :
    (payoutRows outputs tgc).map PayoutRow.output = outputs := by
  apply List.ext_getElem
  · simp [payoutRows, reads.amounts, reads.amountMasks, reads.assetMasks]
  · intro index _ _
    simp [payoutRows]

end Verified

/--
The builder and the verifier of payout plans agree.  Plans of the builder pass the
checks of a plan; a verified transaction pays the plan exactly; and a transaction
that pays it exactly is verified.
-/
theorem payoutPolicy_agrees
    (backend : Backend)
    (curve : CurveBackend)
    (json : JsonBackend) :
    (∀ window reward params plan,
      makePplnsCoinbasePlan backend window reward params = .ok plan →
      plan.status = .ready → reward ≠ 0 →
      checkExpectedPlan backend reward plan = .ok () ∧
      ∀ minerTxPrefix minerTxTgcJson fee,
        (verifyMinerTxPayoutPolicy backend curve json minerTxPrefix
          minerTxTgcJson reward reward fee plan).status =
            .payoutPlanMismatch →
        ∃ outputs tgc,
          ReadsPayout json minerTxPrefix minerTxTgcJson outputs tgc) ∧
    (∀ minerTxPrefix minerTxTgcJson rewardWithoutFee reward fee plan,
      (verifyMinerTxPayoutPolicy backend curve json minerTxPrefix
        minerTxTgcJson rewardWithoutFee reward fee plan).status = .verified →
      ∃ outputs tgc,
        ReadsPayout json minerTxPrefix minerTxTgcJson outputs tgc ∧
        (payoutRows outputs tgc).map PayoutRow.output = outputs ∧
        PaysExactly curve tgc.txSecretKey plan.destinations
          (payoutRows outputs tgc) ∧
        rowSum (payoutRows outputs tgc).zipIdx = reward.toNat) ∧
    (DerivesAtEveryIndex curve →
      ∀ minerTxPrefix minerTxTgcJson reward fee plan outputs tgc,
        (verifyMinerTxTgcKeyBinding curve json minerTxPrefix
          minerTxTgcJson).status = .verified →
        reward ≠ 0 →
        checkExpectedPlan backend reward plan = .ok () →
        ReadsPayout json minerTxPrefix minerTxTgcJson outputs tgc →
        PaysExactly curve tgc.txSecretKey plan.destinations
          (payoutRows outputs tgc) →
        (verifyMinerTxPayoutPolicy backend curve json minerTxPrefix
          minerTxTgcJson reward reward fee plan).status = .verified) := by
  refine ⟨?_, ?_, ?_⟩
  · intro window reward params plan made ready _
    obtain ⟨rewards, payable, _⟩ := makePplnsCoinbasePlan_ready made ready
    have checked := checkExpectedPlan_eq_ok.mpr ⟨ready, rewards, payable⟩
    exact ⟨checked, fun _ _ _ => readsPayout_of_payoutPlanMismatch checked⟩
  · intro minerTxPrefix minerTxTgcJson rewardWithoutFee reward fee plan verified
    obtain ⟨_, _, _, checked, outputs, tgc, reads, exact, _⟩ :=
      verifyMinerTxPayoutPolicy_verified_iff.mp verified
    obtain ⟨_, _, payable⟩ := checkExpectedPlan_eq_ok.mp checked
    exact ⟨outputs, tgc, reads, reads.outputs_rows, exact,
      exact.rowSum_eq.trans payable.sum⟩
  · intro derives minerTxPrefix minerTxTgcJson reward fee plan outputs tgc bound
      nonzero checked reads exact
    obtain ⟨_, _, payable⟩ := checkExpectedPlan_eq_ok.mp checked
    exact verifyMinerTxPayoutPolicy_verified_iff.mpr ⟨bound, nonzero, rfl,
      checked, outputs, tgc, reads, exact,
      fun index _ => exact.derivable derives payable.nonzero index⟩

/-- A curve whose stealth addresses add the index to the spend key. -/
def sampleCurve : CurveBackend where
  available := true
  secretKeyMatchesPublic := fun _ _ => true
  deriveOutputPublicKey := fun _ spend _ index =>
    some (spend + BitVec.ofNat 256 (100 * index))
  amountCommitmentMatches := fun _ _ _ _ => true

/-- Hexadecimal digits of a key. -/
def sampleHex (key : ZanoCurveKey) : List UInt8 :=
  let digit (value : UInt8) : UInt8 :=
    if value < 10 then 0x30 + value else 0x61 + value - 10
  (hashBytes key).flatMap fun byte => [digit (byte / 16), digit (byte % 16)]

/-- A text whose amounts are 400, 10 and 590. -/
def sampleTgc : JsonBackend := fun _ _ => some fun name =>
  let amount (low high : UInt8) : List UInt8 :=
    sampleHex (keyOfBytes ([low, high] ++ List.replicate 30 0))
  let zero := sampleHex 0
  if name = "tx_key" then
    some (sampleHex 5 ++ sampleHex 6)
  else if name = "amounts" then
    some (amount 0x90 1 ++ [0x2c] ++ amount 10 0 ++ [0x2c, 0x20] ++
      amount 0x4e 2)
  else
    some (zero ++ [0x2c] ++ zero ++ [0x2c] ++ zero)

/-- A prefix with three native outputs; the second pays the operator. -/
def samplePrefix : List UInt8 :=
  let output (stealth : ZanoCurveKey) : List UInt8 :=
    [63, 0] ++ hashBytes stealth ++ hashBytes 0 ++ hashBytes 0 ++
      hashBytes kNativeCoinAssetId1Div8 ++ List.replicate 17 0
  [4, 1, 0, 9, 1, 22] ++ hashBytes 5 ++ [3] ++ output 7 ++ output 101 ++
    output 207 ++ [6]

def sampleWindow : PplnsWindow where
  requestedWork := 2
  coveredWork := 2
  includedShares := 2
  complete := true
  miners := [{
    minerId := 1
    work := 2
    payout := some { spendPublicKey := 7, viewPublicKey := 7 } }]

def samplePlan : PplnsCoinbasePlan where
  status := .ready
  rewardAtomic := 1000
  destinations := [
    { minerId := 1
      payout := { spendPublicKey := 7, viewPublicKey := 7 }
      amount := 990 },
    { minerId := 1
      payout := { spendPublicKey := 1, viewPublicKey := 1 }
      amount := 10 }]

/-- A plan of the builder is paid by three outputs in another order. -/
theorem samplePlan_verified :
    makePplnsCoinbasePlan sampleBackend sampleWindow 1000 sampleParameters =
        .ok samplePlan ∧
      checkExpectedPlan sampleBackend 1000 samplePlan = .ok () ∧
      (verifyMinerTxPayoutPolicy sampleBackend sampleCurve sampleTgc
        samplePrefix [1] 1000 1000 0 samplePlan).status = .verified := by
  have made :
      makePplnsCoinbasePlan sampleBackend sampleWindow 1000
        sampleParameters = .ok samplePlan := by
    decide +kernel
  have derives : DerivesAtEveryIndex sampleCurve :=
    fun _ _ _ _ _ _ => rfl
  have verified :
      (verifyMinerTxPayoutPolicy sampleBackend sampleCurve sampleTgc
        samplePrefix [1] 1000 1000 0 samplePlan).status = .verified := by
    decide +kernel
  obtain ⟨built, sound, complete⟩ :=
    payoutPolicy_agrees sampleBackend sampleCurve sampleTgc
  obtain ⟨checked, _⟩ := built _ _ _ _ made rfl (by decide)
  obtain ⟨outputs, tgc, reads, _, exact, _⟩ := sound _ _ _ _ _ _ verified
  exact ⟨made, checked,
    complete derives _ _ _ _ _ outputs tgc (by decide +kernel) (by decide)
      checked reads exact⟩

end ZanoP2pool
