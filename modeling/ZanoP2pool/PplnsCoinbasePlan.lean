import ZanoP2pool.PplnsCoinbase
import ZanoP2pool.PplnsWindow

namespace ZanoP2pool

open Foundation

/-!
# Soundness of coinbase plans

What a ready plan holds is first stated for an arbitrary window.  For the window
of a sidechain whose shares carry payout identities the plan can only fail for
want of a positive amount.
-/

theorem toNat_kMaxU64 : kMaxU64.toNat = 2 ^ 64 - 1 := by
  decide

/-- What fits below the largest value is added without a carry. -/
theorem fits_of_le_kMaxU64_sub
    {amount total : UInt64} :
    ¬ amount > kMaxU64 - total ↔ amount.toNat + total.toNat < 2 ^ 64 := by
  have bound := total.toNat_lt
  have order : total ≤ kMaxU64 := by
    rw [UInt64.le_iff_toNat_le, toNat_kMaxU64]
    omega
  rw [gt_iff_lt, UInt64.lt_iff_toNat_lt, UInt64.toNat_sub_of_le _ _ order,
    toNat_kMaxU64]
  omega

theorem toNat_add_of_fits
    {amount total : UInt64}
    (fits : amount.toNat + total.toNat < 2 ^ 64) :
    (total + amount).toNat = total.toNat + amount.toNat := by
  rw [UInt64.toNat_add]
  exact Nat.mod_eq_of_lt (by omega)

/-- The operator fee of a reward: its basis points, rounded down. -/
def operatorFeeOf (params : SidechainParameters) (rewardAtomic : UInt64) : Nat :=
  rewardAtomic.toNat * params.operatorFeeBasisPoints.toNat / 10000

/-- Splitting the amount at the denominator splits its basis-point share. -/
theorem basisPointShare_split
    (amount basisPoints : Nat) :
    amount / 10000 * basisPoints + amount % 10000 * basisPoints / 10000 =
      amount * basisPoints / 10000 := by
  have division := Nat.div_add_mod amount 10000
  conv_rhs => rw [← division, Nat.add_mul, Nat.mul_assoc]
  rw [Nat.mul_add_div (by norm_num)]

/-- A basis-point share is no larger than the amount. -/
theorem basisPointShare_le
    (amount : Nat)
    {basisPoints : Nat}
    (bounded : basisPoints ≤ 10000) :
    amount * basisPoints / 10000 ≤ amount :=
  Nat.div_le_of_le_mul (by
    rw [Nat.mul_comm]
    exact Nat.mul_le_mul_right amount bounded)

/-- The split computation of the fee is exact and never overflows. -/
theorem calculateBasisPointShare_eq
    {amount basisPoints : UInt64}
    (bounded : basisPoints < kOperatorFeeBasisPointDenominator) :
    calculateBasisPointShare amount basisPoints =
      some (UInt64.ofNat (amount.toNat * basisPoints.toNat / 10000)) := by
  have denominator : kOperatorFeeBasisPointDenominator.toNat = 10000 := by
    decide
  have small : basisPoints.toNat < 10000 := by
    rw [← denominator]
    exact UInt64.lt_iff_toNat_lt.mp bounded
  have amountBound := amount.toNat_lt
  have split := basisPointShare_split amount.toNat basisPoints.toNat
  have whole := basisPointShare_le amount.toNat small.le
  have remainderSmall :
      amount.toNat % 10000 * basisPoints.toNat < 2 ^ 64 := by
    have digit := Nat.mod_lt amount.toNat (show 0 < 10000 by norm_num)
    calc amount.toNat % 10000 * basisPoints.toNat
        ≤ 10000 * 10000 := Nat.mul_le_mul digit.le small.le
      _ < 2 ^ 64 := by norm_num
  have wholeFee :
      (amount / kOperatorFeeBasisPointDenominator * basisPoints).toNat =
        amount.toNat / 10000 * basisPoints.toNat := by
    rw [UInt64.toNat_mul, UInt64.toNat_div, denominator]
    exact Nat.mod_eq_of_lt (by omega)
  have remainderFee :
      (amount % kOperatorFeeBasisPointDenominator * basisPoints /
          kOperatorFeeBasisPointDenominator).toNat =
        amount.toNat % 10000 * basisPoints.toNat / 10000 := by
    rw [UInt64.toNat_div, UInt64.toNat_mul, UInt64.toNat_mod, denominator,
      Nat.mod_eq_of_lt remainderSmall]
  have wholeFits :
      ¬ (basisPoints ≠ 0 ∧
        amount / kOperatorFeeBasisPointDenominator >
          kMaxU64 / basisPoints) := by
    rintro ⟨nonzero, exceeds⟩
    rw [gt_iff_lt, UInt64.lt_iff_toNat_lt, UInt64.toNat_div, UInt64.toNat_div,
      denominator, toNat_kMaxU64] at exceeds
    have positive : 0 < basisPoints.toNat :=
      Nat.pos_of_ne_zero fun zero => nonzero (UInt64.toNat_inj.mp zero)
    rw [Nat.div_lt_iff_lt_mul positive] at exceeds
    omega
  have sumFits :
      ¬ amount % kOperatorFeeBasisPointDenominator * basisPoints /
          kOperatorFeeBasisPointDenominator >
        kMaxU64 - amount / kOperatorFeeBasisPointDenominator *
          basisPoints := by
    rw [fits_of_le_kMaxU64_sub, wholeFee, remainderFee]
    omega
  simp only [calculateBasisPointShare,
    if_neg (UInt64.not_le.mpr bounded), if_neg wholeFits, if_neg sumFits]
  refine congrArg some (UInt64.toNat_inj.mp ?_)
  rw [toNat_add_of_fits (fits_of_le_kMaxU64_sub.mp sumFits), wholeFee,
    remainderFee, UInt64.toNat_ofNat', split]
  exact (Nat.mod_eq_of_lt (by omega)).symm

/-- A destination that pays an allocated entry. -/
structure Pays
    (backend : Backend)
    (entry : PplnsPayout)
    (destination : PplnsCoinbaseDestination) :
    Prop where
  payout : entry.payout = some destination.payout
  miner : entry.minerId = destination.minerId
  bound : entry.minerId = minerIdFromPayout backend destination.payout
  amount : destination.amount = entry.amount
  nonzero : entry.amount ≠ 0

/-- Sum of the amounts of destinations. -/
def destinationSum (destinations : List PplnsCoinbaseDestination) : Nat :=
  (destinations.map fun destination => destination.amount.toNat).sum

@[simp] theorem destinationSum_cons
    (destination : PplnsCoinbaseDestination)
    (rest : List PplnsCoinbaseDestination) :
    destinationSum (destination :: rest) =
      destination.amount.toNat + destinationSum rest :=
  rfl

/-- Collected destinations pay their entries, and the total is exact. -/
theorem collectDestinations_eq_ok
    {backend : Backend}
    {total final : UInt64}
    {entries : List PplnsPayout}
    {destinations : List PplnsCoinbaseDestination}
    (collected :
      collectDestinations backend total entries = .ok (final, destinations)) :
    List.Forall₂ (Pays backend) entries destinations ∧
      final.toNat = total.toNat + destinationSum destinations := by
  induction entries generalizing total destinations with
  | nil =>
      cases collected
      exact ⟨.nil, by simp [destinationSum]⟩
  | cons entry rest inductionHypothesis =>
      unfold collectDestinations at collected
      cases carried : entry.payout with
      | none =>
          rw [carried] at collected
          cases collected
      | some payout =>
          simp only [carried] at collected
          split_ifs at collected with bound zero overflow
          obtain ⟨⟨last, others⟩, next, shape⟩ :=
            except_bind_eq_ok.mp collected
          cases shape
          obtain ⟨pays, value⟩ := inductionHypothesis next
          have fits := fits_of_le_kMaxU64_sub.mp overflow
          refine ⟨.cons ?_ pays, ?_⟩
          · exact ⟨carried, rfl, not_not.mp bound, rfl, zero⟩
          · rw [value, toNat_add_of_fits fits, destinationSum_cons,
              Nat.add_assoc]

/-- Entries bound to payouts that fit are collected, unless one is zero. -/
theorem collectDestinations_of_bound
    {backend : Backend}
    {total : UInt64}
    {entries : List PplnsPayout}
    (bound :
      ∀ entry ∈ entries, ∃ payout,
        entry.payout = some payout ∧
          entry.minerId = minerIdFromPayout backend payout)
    (fits :
      total.toNat + (entries.map fun entry => entry.amount.toNat).sum <
        2 ^ 64) :
    (∃ result, collectDestinations backend total entries = .ok result) ∨
      collectDestinations backend total entries = .error .zeroPayout ∧
        ∃ entry ∈ entries, entry.amount = 0 := by
  induction entries generalizing total with
  | nil => exact .inl ⟨_, rfl⟩
  | cons entry rest inductionHypothesis =>
      obtain ⟨⟨payout, carried, sameMiner⟩, restBound⟩ :=
        List.forall_mem_cons.mp bound
      rw [List.map_cons, List.sum_cons] at fits
      unfold collectDestinations
      simp only [carried]
      rw [if_neg (not_not.mpr sameMiner)]
      by_cases zero : entry.amount = 0
      · exact .inr ⟨if_pos zero, entry, by simp, zero⟩
      have here : ¬ entry.amount > kMaxU64 - total :=
        fits_of_le_kMaxU64_sub.mpr (by omega)
      rw [if_neg zero, if_neg here]
      have restFits :
          (total + entry.amount).toNat +
              (rest.map fun entry => entry.amount.toNat).sum < 2 ^ 64 := by
        rw [toNat_add_of_fits (fits_of_le_kMaxU64_sub.mp here)]
        omega
      rcases inductionHypothesis restBound restFits with
        ⟨result, collected⟩ | ⟨collected, zeroEntry, member, isZero⟩
      · exact .inl ⟨_, by rw [collected]; rfl⟩
      · exact .inr ⟨by rw [collected]; rfl, zeroEntry, by simp [member],
          isZero⟩

/-- The destination of a payout with the fee, if it is the operator. -/
def withFee
    (operatorPayout : PayoutPublicKeys)
    (operatorFee : UInt64)
    (destination : PplnsCoinbaseDestination) :
    PplnsCoinbaseDestination :=
  if destination.payout = operatorPayout then
    { destination with amount := destination.amount + operatorFee }
  else destination

@[simp] theorem withFee_payout
    (operatorPayout : PayoutPublicKeys)
    (operatorFee : UInt64)
    (destination : PplnsCoinbaseDestination) :
    (withFee operatorPayout operatorFee destination).payout =
      destination.payout := by
  unfold withFee
  split_ifs <;> rfl

@[simp] theorem withFee_minerId
    (operatorPayout : PayoutPublicKeys)
    (operatorFee : UInt64)
    (destination : PplnsCoinbaseDestination) :
    (withFee operatorPayout operatorFee destination).minerId =
      destination.minerId := by
  unfold withFee
  split_ifs <;> rfl

section Operator

variable {operatorPayout : PayoutPublicKeys} {operatorFee : UInt64}
variable {destinations : List PplnsCoinbaseDestination}

/-- Destinations other than the operator are left alone. -/
theorem map_withFee_of_absent
    (operatorFee : UInt64)
    (absent :
      operatorPayout ∉ destinations.map PplnsCoinbaseDestination.payout) :
    destinations.map (withFee operatorPayout operatorFee) = destinations := by
  have unchanged :
      ∀ destination ∈ destinations,
        withFee operatorPayout operatorFee destination = id destination := by
    intro destination member
    refine if_neg fun same => absent ?_
    exact List.mem_map.mpr ⟨destination, member, same⟩
  rw [List.map_congr_left unchanged, List.map_id]

/-- Without an operator destination nothing is merged. -/
theorem mergeOperatorFee_of_absent
    (absent :
      operatorPayout ∉ destinations.map PplnsCoinbaseDestination.payout) :
    mergeOperatorFee operatorPayout operatorFee destinations = none := by
  induction destinations with
  | nil => rfl
  | cons destination rest inductionHypothesis =>
      rw [List.map_cons, List.mem_cons, not_or] at absent
      rw [mergeOperatorFee, if_neg (Ne.symm absent.1),
        inductionHypothesis absent.2]
      rfl

/-- A fee that fits is merged into the only operator destination. -/
theorem mergeOperatorFee_of_mem
    (distinct : (destinations.map PplnsCoinbaseDestination.payout).Nodup)
    (present :
      operatorPayout ∈ destinations.map PplnsCoinbaseDestination.payout)
    (fits : destinationSum destinations + operatorFee.toNat < 2 ^ 64) :
    mergeOperatorFee operatorPayout operatorFee destinations =
      some (.ok (destinations.map (withFee operatorPayout operatorFee))) := by
  induction destinations with
  | nil => cases present
  | cons destination rest inductionHypothesis =>
      rw [List.map_cons, List.nodup_cons] at distinct
      rw [destinationSum_cons] at fits
      by_cases same : destination.payout = operatorPayout
      · have here : ¬ operatorFee > kMaxU64 - destination.amount :=
          fits_of_le_kMaxU64_sub.mpr (by omega)
        have others := map_withFee_of_absent operatorFee
          (same ▸ distinct.1)
        rw [mergeOperatorFee, if_pos same, if_neg here, List.map_cons, others,
          withFee, if_pos same]
      · have later :
            operatorPayout ∈ rest.map PplnsCoinbaseDestination.payout := by
          rw [List.map_cons, List.mem_cons] at present
          exact present.resolve_left (Ne.symm same)
        rw [mergeOperatorFee, if_neg same,
          inductionHypothesis distinct.2 later (by omega), List.map_cons,
          withFee, if_neg same]
        rfl

/-- The destinations after the operator fee is paid. -/
def withOperatorFee
    (backend : Backend)
    (operatorPayout : PayoutPublicKeys)
    (operatorFee : UInt64)
    (destinations : List PplnsCoinbaseDestination) :
    List PplnsCoinbaseDestination :=
  destinations.map (withFee operatorPayout operatorFee) ++
    if operatorFee = 0 ∨
        operatorPayout ∈
          destinations.map PplnsCoinbaseDestination.payout then
      []
    else
      [{ minerId := minerIdFromPayout backend operatorPayout
         payout := operatorPayout
         amount := operatorFee }]

/-- A fee that fits is paid, in an own destination if there is none. -/
theorem addOperatorFee_ok
    {backend : Backend}
    (distinct : (destinations.map PplnsCoinbaseDestination.payout).Nodup)
    (fits : destinationSum destinations + operatorFee.toNat < 2 ^ 64)
    (room : destinations.length < kZanoHf6MaxCoinbaseOutputs) :
    addOperatorFee backend operatorPayout operatorFee destinations =
      .ok (withOperatorFee backend operatorPayout operatorFee
        destinations) := by
  unfold addOperatorFee withOperatorFee
  by_cases none : operatorFee = 0
  · have unchanged :
        destinations.map (withFee operatorPayout operatorFee) =
          destinations := by
      have same : withFee operatorPayout operatorFee = id := by
        funext destination
        simp [withFee, none]
      rw [same, List.map_id]
    rw [if_pos none, if_pos (.inl none), unchanged, List.append_nil]
  · rw [if_neg none]
    by_cases present :
        operatorPayout ∈ destinations.map PplnsCoinbaseDestination.payout
    · rw [mergeOperatorFee_of_mem distinct present fits]
      simp only
      rw [if_pos (.inr present), List.append_nil]
    · rw [mergeOperatorFee_of_absent present,
        map_withFee_of_absent operatorFee present]
      simp only
      rw [if_neg (Nat.not_le.mpr room), if_neg (not_or.mpr ⟨none, present⟩)]

end Operator

/-- A plan that can be paid out in one coinbase transaction. -/
structure PayablePlan
    (backend : Backend)
    (rewardAtomic : UInt64)
    (destinations : List PplnsCoinbaseDestination) :
    Prop where
  some : destinations ≠ []
  few : destinations.length ≤ kZanoHf6MaxCoinbaseOutputs
  distinct : (destinations.map PplnsCoinbaseDestination.payout).Nodup
  bound :
    ∀ destination ∈ destinations,
      destination.minerId = minerIdFromPayout backend destination.payout
  nonzero : ∀ destination ∈ destinations, destination.amount ≠ 0
  sum : destinationSum destinations = rewardAtomic.toNat

section Paid

variable {backend : Backend} {entries : List PplnsPayout}
variable {destinations : List PplnsCoinbaseDestination}

theorem destinationSum_append
    (first second : List PplnsCoinbaseDestination) :
    destinationSum (first ++ second) =
      destinationSum first + destinationSum second := by
  simp [destinationSum]

/-- The members of two related lists are related. -/
theorem exists_entry_of_pays
    (pays : List.Forall₂ (Pays backend) entries destinations)
    {destination : PplnsCoinbaseDestination}
    (member : destination ∈ destinations) :
    ∃ entry ∈ entries, Pays backend entry destination := by
  induction pays with
  | nil => cases member
  | @cons entry head _ _ paid _ inductionHypothesis =>
      rcases List.mem_cons.mp member with rfl | later
      · exact ⟨entry, by simp, paid⟩
      · obtain ⟨other, inRest, otherPaid⟩ := inductionHypothesis later
        exact ⟨other, by simp [inRest], otherPaid⟩

theorem exists_destination_of_pays
    (pays : List.Forall₂ (Pays backend) entries destinations)
    {entry : PplnsPayout}
    (member : entry ∈ entries) :
    ∃ destination ∈ destinations, Pays backend entry destination := by
  induction pays with
  | nil => cases member
  | @cons head destination _ _ paid _ inductionHypothesis =>
      rcases List.mem_cons.mp member with rfl | later
      · exact ⟨destination, by simp, paid⟩
      · obtain ⟨other, inRest, otherPaid⟩ := inductionHypothesis later
        exact ⟨other, by simp [inRest], otherPaid⟩

/-- Entries of different miners are paid to different payouts. -/
theorem nodup_payouts_of_pays
    (pays : List.Forall₂ (Pays backend) entries destinations)
    (miners : (entries.map PplnsPayout.minerId).Nodup) :
    (destinations.map PplnsCoinbaseDestination.payout).Nodup := by
  have listed :
      entries.map PplnsPayout.minerId =
        (destinations.map PplnsCoinbaseDestination.payout).map
          (minerIdFromPayout backend) := by
    clear miners
    induction pays with
    | nil => rfl
    | cons paid _ inductionHypothesis =>
        rw [List.map_cons, List.map_cons, List.map_cons, paid.bound,
          inductionHypothesis]
  rw [listed] at miners
  exact miners.of_map

/-- The destinations pay out what the entries hold. -/
theorem keyedSum_of_pays
    (pays : List.Forall₂ (Pays backend) entries destinations)
    (payout : PayoutPublicKeys) :
    keyedSum (entries.map fun entry => (entry.payout, entry.amount.toNat))
        (some payout) =
      keyedSum
        (destinations.map fun destination =>
          (destination.payout, destination.amount.toNat)) payout := by
  induction pays with
  | nil => rfl
  | cons paid _ inductionHypothesis =>
      rw [List.map_cons, List.map_cons, keyedSum_cons, keyedSum_cons,
        inductionHypothesis, paid.payout, paid.amount]
      simp

end Paid

section Fee

variable {backend : Backend} {operatorPayout : PayoutPublicKeys}
variable {operatorFee : UInt64} {destinations : List PplnsCoinbaseDestination}

/-- A destination is part of the sum. -/
theorem amount_le_destinationSum
    {destination : PplnsCoinbaseDestination}
    (member : destination ∈ destinations) :
    destination.amount.toNat ≤ destinationSum destinations :=
  List.single_le_sum (by simp) _ (List.mem_map.mpr ⟨destination, member, rfl⟩)

theorem withFee_amount
    {destination : PplnsCoinbaseDestination}
    (fits : destination.amount.toNat + operatorFee.toNat < 2 ^ 64) :
    (withFee operatorPayout operatorFee destination).amount.toNat =
      destination.amount.toNat +
        if destination.payout = operatorPayout then
          operatorFee.toNat
        else 0 := by
  by_cases same : destination.payout = operatorPayout
  · rw [withFee, if_pos same, if_pos same]
    exact toNat_add_of_fits (by omega)
  · rw [withFee, if_neg same, if_neg same, Nat.add_zero]

variable (distinct : (destinations.map PplnsCoinbaseDestination.payout).Nodup)
variable (fits : destinationSum destinations + operatorFee.toNat < 2 ^ 64)

include distinct fits in
/-- The fee is added once. -/
theorem destinationSum_withFee :
    destinationSum (destinations.map (withFee operatorPayout operatorFee)) =
      destinationSum destinations +
        if operatorPayout ∈
            destinations.map PplnsCoinbaseDestination.payout then
          operatorFee.toNat
        else 0 := by
  induction destinations with
  | nil => simp [destinationSum]
  | cons destination rest inductionHypothesis =>
      rw [List.map_cons, List.nodup_cons] at distinct
      rw [destinationSum_cons] at fits
      have others := inductionHypothesis distinct.2 (by omega)
      rw [List.map_cons, destinationSum_cons, others, destinationSum_cons,
        withFee_amount (by omega), List.map_cons]
      by_cases same : destination.payout = operatorPayout
      · subst operatorPayout
        rw [if_pos rfl, if_neg distinct.1, if_pos List.mem_cons_self]
        omega
      · have iff :
            operatorPayout ∈
                destination.payout ::
                  rest.map PplnsCoinbaseDestination.payout ↔
              operatorPayout ∈ rest.map PplnsCoinbaseDestination.payout := by
          simp [Ne.symm same]
        rw [if_neg same, if_congr iff rfl rfl]
        omega

include distinct fits in
/-- Paying the fee adds exactly the fee. -/
theorem destinationSum_withOperatorFee :
    destinationSum
        (withOperatorFee backend operatorPayout operatorFee destinations) =
      destinationSum destinations + operatorFee.toNat := by
  rw [withOperatorFee, destinationSum_append,
    destinationSum_withFee distinct fits]
  by_cases present :
      operatorPayout ∈ destinations.map PplnsCoinbaseDestination.payout
  · rw [if_pos present, if_pos (.inr present)]
    rfl
  · rw [if_neg present]
    by_cases none : operatorFee = 0
    · rw [if_pos (.inl none), none]
      rfl
    · rw [if_neg (not_or.mpr ⟨none, present⟩)]
      simp [destinationSum]

/-- Destinations after the fee: an old one, or the operator's own. -/
theorem mem_withOperatorFee
    {destination : PplnsCoinbaseDestination}
    (member :
      destination ∈
        withOperatorFee backend operatorPayout operatorFee destinations) :
    (∃ before ∈ destinations,
      destination = withFee operatorPayout operatorFee before) ∨
    (operatorFee ≠ 0 ∧
      operatorPayout ∉ destinations.map PplnsCoinbaseDestination.payout ∧
      destination = {
        minerId := minerIdFromPayout backend operatorPayout
        payout := operatorPayout
        amount := operatorFee }) := by
  rcases List.mem_append.mp member with old | added
  · obtain ⟨before, inOld, rfl⟩ := List.mem_map.mp old
    exact .inl ⟨before, inOld, rfl⟩
  · split_ifs at added with unneeded
    · cases added
    · rw [not_or] at unneeded
      exact .inr ⟨unneeded.1, unneeded.2, List.mem_singleton.mp added⟩

include distinct in
theorem nodup_withOperatorFee :
    ((withOperatorFee backend operatorPayout operatorFee destinations).map
      PplnsCoinbaseDestination.payout).Nodup := by
  have old :
      (destinations.map (withFee operatorPayout operatorFee)).map
          PplnsCoinbaseDestination.payout =
        destinations.map PplnsCoinbaseDestination.payout := by
    rw [List.map_map]
    exact List.map_congr_left fun destination _ => withFee_payout _ _ _
  rw [withOperatorFee, List.map_append, old]
  split_ifs with unneeded
  · simpa using distinct
  · rw [not_or] at unneeded
    rw [List.map_singleton, List.nodup_append]
    refine ⟨distinct, by simp, ?_⟩
    intro payout inOld other inNew same
    obtain rfl : other = operatorPayout := List.mem_singleton.mp inNew
    exact unneeded.2 (same ▸ inOld)

include distinct in
/-- The allocation of a payout among destinations that pay it once. -/
theorem keyedSum_destination
    {destination : PplnsCoinbaseDestination}
    (member : destination ∈ destinations) :
    keyedSum
        (destinations.map fun destination =>
          (destination.payout, destination.amount.toNat))
        destination.payout =
      destination.amount.toNat := by
  induction destinations with
  | nil => cases member
  | cons head rest inductionHypothesis =>
      rw [List.map_cons, List.nodup_cons] at distinct
      rw [List.map_cons, keyedSum_cons]
      rcases List.mem_cons.mp member with rfl | later
      · rw [if_pos rfl, keyedSum_of_absent, Nat.add_zero]
        intro entry inRest
        obtain ⟨other, inOthers, rfl⟩ := List.mem_map.mp inRest
        intro same
        exact distinct.1 (List.mem_map.mpr ⟨other, inOthers, same⟩)
      · have differs : head.payout ≠ destination.payout := by
          intro same
          exact distinct.1
            (List.mem_map.mpr ⟨destination, later, same.symm⟩)
        rw [if_neg differs, Nat.zero_add]
        exact inductionHypothesis distinct.2 later

include distinct fits in
/-- Each destination pays its allocation, and the operator the fee as well. -/
theorem amount_withOperatorFee
    {destination : PplnsCoinbaseDestination}
    (member :
      destination ∈
        withOperatorFee backend operatorPayout operatorFee destinations) :
    destination.amount.toNat =
      keyedSum
        (destinations.map fun destination =>
          (destination.payout, destination.amount.toNat))
        destination.payout +
        if destination.payout = operatorPayout then
          operatorFee.toNat
        else 0 := by
  rcases mem_withOperatorFee member with
    ⟨before, inOld, rfl⟩ | ⟨_, absent, rfl⟩
  · have part := amount_le_destinationSum inOld
    rw [withFee_amount (by omega), withFee_payout,
      keyedSum_destination distinct inOld]
  · rw [if_pos rfl, keyedSum_of_absent, Nat.zero_add]
    intro entry inOld
    obtain ⟨other, inOthers, rfl⟩ := List.mem_map.mp inOld
    intro same
    exact absent (List.mem_map.mpr ⟨other, inOthers, same⟩)

end Fee

/-- Collected destinations with the fee make a payable plan. -/
theorem withOperatorFee_payable
    {backend : Backend}
    {operatorPayout : PayoutPublicKeys}
    {rewardAtomic operatorFee : UInt64}
    {entries : List PplnsPayout}
    {destinations : List PplnsCoinbaseDestination}
    (pays : List.Forall₂ (Pays backend) entries destinations)
    (miners : (entries.map PplnsPayout.minerId).Nodup)
    (some : entries ≠ [])
    (few : entries.length < kZanoHf6MaxCoinbaseOutputs)
    (sum :
      destinationSum destinations + operatorFee.toNat = rewardAtomic.toNat) :
    PayablePlan backend rewardAtomic
      (withOperatorFee backend operatorPayout operatorFee destinations) := by
  have distinct := nodup_payouts_of_pays pays miners
  have rewardBound := rewardAtomic.toNat_lt
  have fits : destinationSum destinations + operatorFee.toNat < 2 ^ 64 := by
    omega
  constructor
  case some =>
    intro empty
    have none : destinations = [] := by
      rw [withOperatorFee, List.append_eq_nil_iff] at empty
      exact List.map_eq_nil_iff.mp empty.1
    subst none
    exact some (List.forall₂_nil_right_iff.mp pays)
  case few =>
    rw [withOperatorFee, List.length_append, List.length_map,
      ← pays.length_eq]
    split_ifs <;> simp <;> omega
  case distinct => exact nodup_withOperatorFee distinct
  case bound =>
    intro destination member
    rcases mem_withOperatorFee member with ⟨before, inOld, rfl⟩ | ⟨_, _, rfl⟩
    · obtain ⟨entry, _, paid⟩ := exists_entry_of_pays pays inOld
      rw [withFee_minerId, withFee_payout, ← paid.miner, paid.bound]
    · rfl
  case nonzero =>
    intro destination member
    rcases mem_withOperatorFee member with
      ⟨before, inOld, rfl⟩ | ⟨nonzero, _, rfl⟩
    · obtain ⟨entry, _, paid⟩ := exists_entry_of_pays pays inOld
      have part := amount_le_destinationSum inOld
      have value := @withFee_amount operatorPayout operatorFee before (by omega)
      intro zero
      rw [zero] at value
      have none : before.amount = 0 := by
        refine UInt64.toNat_inj.mp ?_
        change 0 = _ at value
        change _ = 0
        omega
      exact paid.nonzero (paid.amount ▸ none)
    · exact nonzero
  case sum => rw [destinationSum_withOperatorFee distinct fits, sum]

theorem sum_of_pays
    {backend : Backend}
    {entries : List PplnsPayout}
    {destinations : List PplnsCoinbaseDestination}
    (pays : List.Forall₂ (Pays backend) entries destinations) :
    destinationSum destinations =
      (entries.map fun entry => entry.amount.toNat).sum := by
  induction pays with
  | nil => rfl
  | cons paid _ inductionHypothesis =>
      rw [destinationSum_cons, inductionHypothesis, paid.amount, List.map_cons,
        List.sum_cons]

section Plan

variable {backend : Backend} {params : SidechainParameters}
variable {rewardAtomic operatorFee : UInt64} {entries : List PplnsPayout}
variable (miners : (entries.map PplnsPayout.minerId).Nodup)
variable (smaller : operatorFee < rewardAtomic)

include miners smaller in
/-- Collected destinations of the right total are planned with the fee. -/
theorem planDestinations_of_collected
    (notEmpty : ¬ entries.isEmpty = true)
    (notMany :
      ¬ (entries.length > kZanoHf6MaxCoinbaseOutputs - 1 ∨
        entries.length > params.pplnsWindowShares.toNat))
    {total : UInt64}
    {destinations : List PplnsCoinbaseDestination}
    (collected :
      collectDestinations backend 0 entries = .ok (total, destinations))
    (matching : total = rewardAtomic - operatorFee) :
    destinationSum destinations + operatorFee.toNat = rewardAtomic.toNat ∧
      planDestinations backend params rewardAtomic operatorFee entries =
        .ok (withOperatorFee backend params.operatorFeePayout operatorFee
          destinations) := by
  obtain ⟨pays, value⟩ := collectDestinations_eq_ok collected
  have order := UInt64.lt_iff_toNat_lt.mp smaller
  have totalValue :
      total.toNat = rewardAtomic.toNat - operatorFee.toNat := by
    rw [matching]
    exact UInt64.toNat_sub_of_le _ _ (UInt64.le_iff_toNat_le.mpr order.le)
  have start : (0 : UInt64).toNat = 0 := rfl
  rw [start] at value
  have rewardBound := rewardAtomic.toNat_lt
  have few : destinations.length < kZanoHf6MaxCoinbaseOutputs := by
    rw [← pays.length_eq]
    unfold kZanoHf6MaxCoinbaseOutputs at notMany ⊢
    omega
  have paid :=
    @addOperatorFee_ok params.operatorFeePayout operatorFee destinations
      backend (nodup_payouts_of_pays pays miners) (by omega) few
  have noOverflow : ¬ operatorFee > kMaxU64 - total :=
    fits_of_le_kMaxU64_sub.mpr (by omega)
  have whole : ¬ total + operatorFee ≠ rewardAtomic := by
    refine not_not.mpr (UInt64.toNat_inj.mp ?_)
    rw [toNat_add_of_fits (by omega)]
    omega
  refine ⟨by omega, ?_⟩
  unfold planDestinations
  rw [if_neg notEmpty, if_neg notMany, collected]
  simp only [bind, Except.bind]
  rw [if_neg (not_not.mpr matching), paid]
  simp only
  rw [if_neg noOverflow, if_neg whole]

include miners smaller in
/-- What the planned destinations of an allocation are. -/
theorem planDestinations_eq_ok
    {planned : List PplnsCoinbaseDestination}
    (plans :
      planDestinations backend params rewardAtomic operatorFee entries =
        .ok planned) :
    ∃ destinations,
      List.Forall₂ (Pays backend) entries destinations ∧
      entries ≠ [] ∧
      entries.length < kZanoHf6MaxCoinbaseOutputs ∧
      destinationSum destinations + operatorFee.toNat =
        rewardAtomic.toNat ∧
      planned =
        withOperatorFee backend params.operatorFeePayout operatorFee
          destinations := by
  have original := plans
  unfold planDestinations at plans
  split_ifs at plans with empty many
  obtain ⟨⟨total, destinations⟩, collected, plans⟩ :=
    except_bind_eq_ok.mp plans
  have matching : total = rewardAtomic - operatorFee := by
    by_contra mismatch
    simp only at plans
    rw [if_pos mismatch] at plans
    cases plans
  obtain ⟨sum, planned⟩ :=
    planDestinations_of_collected miners smaller empty many collected matching
  rw [planned] at original
  cases original
  refine ⟨destinations, (collectDestinations_eq_ok collected).1,
    by simpa using empty, ?_, sum, rfl⟩
  unfold kZanoHf6MaxCoinbaseOutputs at many ⊢
  omega

include miners smaller in
/-- A bound allocation of the right sum is planned, unless a part is zero. -/
theorem planDestinations_of_bound
    (bound :
      ∀ entry ∈ entries, ∃ payout,
        entry.payout = some payout ∧
          entry.minerId = minerIdFromPayout backend payout)
    (some : entries ≠ [])
    (few : entries.length < kZanoHf6MaxCoinbaseOutputs)
    (window : entries.length ≤ params.pplnsWindowShares.toNat)
    (sum :
      (entries.map fun entry => entry.amount.toNat).sum =
        rewardAtomic.toNat - operatorFee.toNat) :
    (∃ planned,
      planDestinations backend params rewardAtomic operatorFee entries =
        .ok planned) ∨
      planDestinations backend params rewardAtomic operatorFee entries =
          .error .zeroPayout ∧
        ∃ entry ∈ entries, entry.amount = 0 := by
  have rewardBound := rewardAtomic.toNat_lt
  have order := UInt64.lt_iff_toNat_lt.mp smaller
  have notEmpty : ¬ entries.isEmpty = true := by simpa using some
  have notMany :
      ¬ (entries.length > kZanoHf6MaxCoinbaseOutputs - 1 ∨
        entries.length > params.pplnsWindowShares.toNat) := by
    unfold kZanoHf6MaxCoinbaseOutputs at few ⊢
    omega
  have start : (0 : UInt64).toNat = 0 := rfl
  have fits :
      (0 : UInt64).toNat +
          (entries.map fun entry => entry.amount.toNat).sum < 2 ^ 64 := by
    rw [start, sum]
    omega
  rcases collectDestinations_of_bound bound fits with
    ⟨⟨total, destinations⟩, collected⟩ | ⟨collected, zero⟩
  · obtain ⟨pays, value⟩ := collectDestinations_eq_ok collected
    rw [start, sum_of_pays pays, sum] at value
    have matching : total = rewardAtomic - operatorFee := by
      refine UInt64.toNat_inj.mp ?_
      rw [UInt64.toNat_sub_of_le _ _ (UInt64.le_iff_toNat_le.mpr order.le)]
      omega
    exact .inl ⟨_, (planDestinations_of_collected miners smaller notEmpty
      notMany collected matching).2⟩
  · refine .inr ⟨?_, zero⟩
    unfold planDestinations
    rw [if_neg notEmpty, if_neg notMany, collected]
    rfl

end Plan

section Fees

variable {params : SidechainParameters} (accepted : params.Accepted)
variable (rewardAtomic : UInt64)

/-- The operator fee as the 64-bit value the plan is made with. -/
def operatorFeeAtomic (params : SidechainParameters) (rewardAtomic : UInt64) :
    UInt64 :=
  UInt64.ofNat (operatorFeeOf params rewardAtomic)

include accepted in
theorem operatorFeeBasisPoints_lt :
    params.operatorFeeBasisPoints.toNat < 10000 :=
  UInt64.lt_iff_toNat_lt.mp accepted.payoutPolicy.2.2.1.2

include accepted in
theorem operatorFeeAtomic_toNat :
    (operatorFeeAtomic params rewardAtomic).toNat =
      operatorFeeOf params rewardAtomic := by
  have fee := basisPointShare_le rewardAtomic.toNat
    (operatorFeeBasisPoints_lt accepted).le
  have rewardBound := rewardAtomic.toNat_lt
  rw [operatorFeeAtomic, UInt64.toNat_ofNat']
  exact Nat.mod_eq_of_lt (by unfold operatorFeeOf; omega)

include accepted in
/-- Only a zero reward is used up by the fee. -/
theorem operatorFeeAtomic_lt
    (nonzero : rewardAtomic ≠ 0) :
    operatorFeeAtomic params rewardAtomic < rewardAtomic := by
  have positive : 0 < rewardAtomic.toNat :=
    Nat.pos_of_ne_zero fun zero => nonzero (UInt64.toNat_inj.mp zero)
  rw [UInt64.lt_iff_toNat_lt, operatorFeeAtomic_toNat accepted, operatorFeeOf,
    Nat.div_lt_iff_lt_mul (by norm_num)]
  exact Nat.mul_lt_mul_of_pos_left (operatorFeeBasisPoints_lt accepted) positive

end Fees

section Make

variable {backend : Backend} {window : PplnsWindow} {rewardAtomic : UInt64}
variable {params : SidechainParameters}

/-- How a plan of accepted parameters is made. -/
theorem makePplnsCoinbasePlan_eq
    (accepted : params.Accepted) :
    makePplnsCoinbasePlan backend window rewardAtomic params =
      if window.miners.isEmpty then
        .ok (planOf rewardAtomic (.error .emptyWindow))
      else if !window.complete then
        .ok (planOf rewardAtomic (.error .incompleteWindow))
      else if rewardAtomic = 0 then
        .ok (planOf rewardAtomic (.error .zeroPayout))
      else
        (allocatePplnsReward backend window
          (rewardAtomic - operatorFeeAtomic params rewardAtomic)).map
            fun payouts =>
              planOf rewardAtomic
                (planDestinations backend params rewardAtomic
                  (operatorFeeAtomic params rewardAtomic) payouts) := by
  obtain ⟨bytes, serialized⟩ := id accepted
  have fee :
      calculateBasisPointShare rewardAtomic params.operatorFeeBasisPoints =
        some (operatorFeeAtomic params rewardAtomic) :=
    calculateBasisPointShare_eq accepted.payoutPolicy.2.2.1.2
  simp only [makePplnsCoinbasePlan, serialized, bind, Except.bind, fee, pure,
    Except.pure]
  by_cases zero : rewardAtomic = 0
  · have used : operatorFeeAtomic params rewardAtomic ≥ rewardAtomic := by
      rw [zero]
      exact UInt64.zero_le
    rw [if_pos used, if_pos zero]
  · have unused : ¬ operatorFeeAtomic params rewardAtomic ≥ rewardAtomic :=
      UInt64.not_le.mpr (operatorFeeAtomic_lt accepted rewardAtomic zero)
    rw [if_neg unused, if_neg zero]
    rfl

theorem accepted_of_makePplnsCoinbasePlan
    {plan : PplnsCoinbasePlan}
    (made :
      makePplnsCoinbasePlan backend window rewardAtomic params = .ok plan) :
    params.Accepted := by
  unfold makePplnsCoinbasePlan at made
  obtain ⟨bytes, serialized, _⟩ := except_bind_eq_ok.mp made
  exact ⟨bytes, serialized⟩

/-- The amounts of a ready plan come from an allocation and the fee. -/
structure PaysAllocation
    (params : SidechainParameters)
    (rewardAtomic : UInt64)
    (payouts : List PplnsPayout)
    (destinations : List PplnsCoinbaseDestination) :
    Prop where
  amount :
    ∀ destination ∈ destinations,
      destination.amount.toNat =
        keyedSum (payouts.map fun entry => (entry.payout, entry.amount.toNat))
          (some destination.payout) +
          if destination.payout = params.operatorFeePayout then
            operatorFeeOf params rewardAtomic
          else 0
  everyMiner :
    ∀ entry ∈ payouts,
      ∃ destination ∈ destinations,
        entry.payout = some destination.payout
  operator :
    operatorFeeOf params rewardAtomic ≠ 0 →
      ∃ destination ∈ destinations,
        destination.payout = params.operatorFeePayout

theorem collectDestinations_ne_ready
    {total : UInt64}
    {entries : List PplnsPayout} :
    collectDestinations backend total entries ≠ .error .ready := by
  induction entries generalizing total with
  | nil => nofun
  | cons entry rest inductionHypothesis =>
      unfold collectDestinations
      split
      · nofun
      · split_ifs
        · nofun
        · nofun
        · nofun
        · rw [ne_eq, except_bind_eq_error]
          rintro (earlier | ⟨_, _, shape⟩)
          · exact inductionHypothesis earlier
          · cases shape

theorem mergeOperatorFee_ne_ready
    {operatorPayout : PayoutPublicKeys}
    {operatorFee : UInt64}
    {destinations : List PplnsCoinbaseDestination} :
    mergeOperatorFee operatorPayout operatorFee destinations ≠
      some (.error .ready) := by
  induction destinations with
  | nil => nofun
  | cons destination rest inductionHypothesis =>
      unfold mergeOperatorFee
      split_ifs
      · nofun
      · nofun
      · intro merged
        obtain ⟨outcome, found, shape⟩ := Option.map_eq_some_iff.mp merged
        cases outcome with
        | ok others => cases shape
        | error status =>
            cases shape
            exact inductionHypothesis found

theorem addOperatorFee_ne_ready
    {operatorPayout : PayoutPublicKeys}
    {operatorFee : UInt64}
    {destinations : List PplnsCoinbaseDestination} :
    addOperatorFee backend operatorPayout operatorFee destinations ≠
      .error .ready := by
  unfold addOperatorFee
  by_cases none : operatorFee = 0
  · rw [if_pos none]
    nofun
  · rw [if_neg none]
    cases found : mergeOperatorFee operatorPayout operatorFee destinations with
    | some merged =>
        rintro rfl
        exact mergeOperatorFee_ne_ready found
    | none =>
        simp only
        split_ifs <;> nofun

/-- Failed plans never claim to be ready. -/
theorem planDestinations_ne_ready
    {operatorFee : UInt64}
    {entries : List PplnsPayout} :
    planDestinations backend params rewardAtomic operatorFee entries ≠
      .error .ready := by
  unfold planDestinations
  split_ifs
  · nofun
  · nofun
  · rw [ne_eq, except_bind_eq_error]
    rintro (collecting | ⟨⟨total, destinations⟩, _, finishing⟩)
    · exact collectDestinations_ne_ready collecting
    · simp only at finishing
      by_cases matching : total = rewardAtomic - operatorFee
      · rw [if_neg (not_not.mpr matching), except_bind_eq_error] at finishing
        rcases finishing with adding | ⟨_, _, finishing⟩
        · exact addOperatorFee_ne_ready adding
        · split_ifs at finishing
          · cases finishing
          · cases finishing
      · rw [if_pos matching] at finishing
        cases finishing

/-- The fee and the collected destinations pay the allocation. -/
theorem paysAllocation_of_pays
    (accepted : params.Accepted)
    {payouts : List PplnsPayout}
    {destinations : List PplnsCoinbaseDestination}
    (pays : List.Forall₂ (Pays backend) payouts destinations)
    (miners : (payouts.map PplnsPayout.minerId).Nodup)
    (sum :
      destinationSum destinations +
          (operatorFeeAtomic params rewardAtomic).toNat =
        rewardAtomic.toNat) :
    PaysAllocation params rewardAtomic payouts
      (withOperatorFee backend params.operatorFeePayout
        (operatorFeeAtomic params rewardAtomic) destinations) := by
  have distinct := nodup_payouts_of_pays pays miners
  have fee := operatorFeeAtomic_toNat accepted rewardAtomic
  have rewardBound := rewardAtomic.toNat_lt
  constructor
  case amount =>
    intro destination member
    rw [amount_withOperatorFee distinct (by omega) member, fee,
      keyedSum_of_pays pays]
  case everyMiner =>
    intro entry member
    obtain ⟨destination, inOld, paid⟩ :=
      exists_destination_of_pays pays member
    refine ⟨withFee params.operatorFeePayout _ destination,
      List.mem_append_left _ (List.mem_map.mpr ⟨destination, inOld, rfl⟩), ?_⟩
    rw [withFee_payout]
    exact paid.payout
  case operator =>
    intro nonzero
    have charged : operatorFeeAtomic params rewardAtomic ≠ 0 := by
      intro zero
      rw [zero] at fee
      exact nonzero fee.symm
    by_cases present :
        params.operatorFeePayout ∈
          destinations.map PplnsCoinbaseDestination.payout
    · obtain ⟨destination, inOld, same⟩ := List.mem_map.mp present
      exact ⟨withFee params.operatorFeePayout _ destination,
        List.mem_append_left _ (List.mem_map.mpr ⟨destination, inOld, rfl⟩),
        by rw [withFee_payout, same]⟩
    · refine ⟨{
        minerId := minerIdFromPayout backend params.operatorFeePayout
        payout := params.operatorFeePayout
        amount := operatorFeeAtomic params rewardAtomic },
        List.mem_append_right _ ?_, rfl⟩
      rw [if_neg (not_or.mpr ⟨charged, present⟩)]
      exact List.mem_singleton.mpr rfl

/-- What a ready plan holds, whatever the window. -/
theorem makePplnsCoinbasePlan_ready
    {plan : PplnsCoinbasePlan}
    (made :
      makePplnsCoinbasePlan backend window rewardAtomic params = .ok plan)
    (ready : plan.status = .ready) :
    plan.rewardAtomic = rewardAtomic ∧
    PayablePlan backend rewardAtomic plan.destinations ∧
    ∃ payouts,
      allocatePplnsReward backend window
          (rewardAtomic - operatorFeeAtomic params rewardAtomic) =
        .ok payouts ∧
      PaysAllocation params rewardAtomic payouts plan.destinations := by
  have accepted := accepted_of_makePplnsCoinbasePlan made
  rw [makePplnsCoinbasePlan_eq accepted] at made
  split_ifs at made with empty incomplete zero
  · cases made
    cases ready
  · cases made
    cases ready
  · cases made
    cases ready
  cases allocated : allocatePplnsReward backend window
      (rewardAtomic - operatorFeeAtomic params rewardAtomic) with
  | error failure =>
      rw [allocated] at made
      cases made
  | ok payouts =>
      rw [allocated] at made
      have shape :
          planOf rewardAtomic (planDestinations backend params rewardAtomic
            (operatorFeeAtomic params rewardAtomic) payouts) = plan :=
        Except.ok.inj made
      cases plans : planDestinations backend params rewardAtomic
          (operatorFeeAtomic params rewardAtomic) payouts with
      | error status =>
          rw [plans] at shape
          subst shape
          obtain rfl : status = .ready := ready
          exact (planDestinations_ne_ready plans).elim
      | ok planned =>
          rw [plans] at shape
          subst shape
          have miners := allocatePplnsReward_nodup allocated
          obtain ⟨destinations, pays, some, few, sum, rfl⟩ :=
            planDestinations_eq_ok miners
              (operatorFeeAtomic_lt accepted rewardAtomic zero) plans
          refine ⟨rfl, withOperatorFee_payable pays miners some few sum,
            payouts, rfl, ?_⟩
          exact paysAllocation_of_pays accepted pays miners sum

end Make

end ZanoP2pool
