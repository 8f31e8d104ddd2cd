import ZanoP2pool.Foundation.Apportion
import ZanoP2pool.PplnsCredits

namespace ZanoP2pool

open Foundation

/-!
# Allocation of a reward

The reward of a window is the largest-remainder apportionment of the work its
rows collect per miner.  The 64-bit accumulation never overflows and the
leftover never exceeds the number of miners, so the internal failures of the
allocation cannot occur.
-/

/-- Rows that bind every payout to its miner without contradiction. -/
structure ConsistentRows
    (backend : Backend)
    (rows : List PplnsMinerWork) :
    Prop where
  bound :
    ∀ row ∈ rows, ∀ payout, row.payout = some payout →
      row.minerId = minerIdFromPayout backend payout
  agree :
    ∀ first ∈ rows, ∀ second ∈ rows, ∀ payout other,
      first.payout = some payout → second.payout = some other →
      first.minerId = second.minerId → payout = other

/-- The credit of one row. -/
def rowCredit (row : PplnsMinerWork) : Credit where
  minerId := row.minerId
  payout := row.payout
  work := row.work.toNat

/-- The credits of the rows that carry work. -/
def rowCredits (rows : List PplnsMinerWork) : List Credit :=
  (rows.filter fun row => row.work.toNat ≠ 0).map rowCredit

theorem rowCredits_cons_empty
    {row : PplnsMinerWork}
    (empty : row.work.toNat = 0)
    (rest : List PplnsMinerWork) :
    rowCredits (row :: rest) = rowCredits rest := by
  simp [rowCredits, empty]

theorem rowCredits_cons
    {row : PplnsMinerWork}
    (hasWork : row.work.toNat ≠ 0)
    (rest : List PplnsMinerWork) :
    rowCredits (row :: rest) = rowCredit row :: rowCredits rest := by
  simp [rowCredits, hasWork]

theorem ConsistentRows.agreeing
    {backend : Backend}
    {rows : List PplnsMinerWork}
    (consistent : ConsistentRows backend rows) :
    AgreeingPayouts (rowCredits rows) := by
  intro first firstMember second secondMember
  obtain ⟨row, member, rfl⟩ := List.mem_map.mp firstMember
  obtain ⟨other, otherMember, rfl⟩ := List.mem_map.mp secondMember
  exact consistent.agree row (List.mem_of_mem_filter member) other
    (List.mem_of_mem_filter otherMember)

/-- One row with work extends the collected rows. -/
theorem aggregateRow_ok
    {backend : Backend}
    {credits : List Credit}
    {credited : Std.ExtTreeMap MinerId CreditedWork}
    (holds : Credits credits credited)
    {row : PplnsMinerWork}
    (bound :
      ∀ payout, row.payout = some payout →
        row.minerId = minerIdFromPayout backend payout)
    (agree : AgreeingPayouts (credits ++ [rowCredit row]))
    (hasWork : row.work.toNat ≠ 0) :
    ∃ next,
      aggregateRow backend credited row = .ok next ∧
        Credits (credits ++ [rowCredit row]) next := by
  unfold aggregateRow
  rw [if_neg hasWork]
  cases carried : row.payout with
  | none =>
      refine ⟨_, rfl, holds.insert agree rfl ?_⟩
      simp [rowCredit, carried]
  | some payout =>
      have noConflict :
          ¬ ((credited[row.minerId]?.getD {}).payout.isSome ∧
            (credited[row.minerId]?.getD {}).payout ≠ some payout) := by
        rintro ⟨present, differs⟩
        obtain ⟨stored, before⟩ := Option.isSome_iff_exists.mp present
        exact differs (by
          rw [before, holds.stored_agrees agree carried before])
      simp only
      rw [if_neg (by simp [bound payout carried]), if_neg noConflict]
      refine ⟨_, rfl, holds.insert agree rfl ?_⟩
      simp [rowCredit, carried]

/-- The rows of a window are collected without an exception. -/
theorem foldlM_aggregateRow_ok
    {backend : Backend}
    {rows : List PplnsMinerWork}
    {credits : List Credit}
    {credited : Std.ExtTreeMap MinerId CreditedWork}
    (holds : Credits credits credited)
    (bound :
      ∀ row ∈ rows, ∀ payout, row.payout = some payout →
        row.minerId = minerIdFromPayout backend payout)
    (agree : AgreeingPayouts (credits ++ rowCredits rows)) :
    ∃ final,
      rows.foldlM (aggregateRow backend) credited = .ok final ∧
        Credits (credits ++ rowCredits rows) final := by
  induction rows generalizing credits credited with
  | nil => exact ⟨credited, rfl, by simpa [rowCredits] using holds⟩
  | cons row rest inductionHypothesis =>
      obtain ⟨rowBound, restBound⟩ := List.forall_mem_cons.mp bound
      by_cases empty : row.work.toNat = 0
      · rw [rowCredits_cons_empty empty] at agree ⊢
        obtain ⟨final, folded, finalHolds⟩ :=
          inductionHypothesis holds restBound agree
        refine ⟨final, ?_, finalHolds⟩
        rw [List.foldlM_cons, aggregateRow, if_pos empty]
        exact folded
      · have counted :
            credits ++ rowCredits (row :: rest) =
              (credits ++ [rowCredit row]) ++ rowCredits rest := by
          rw [rowCredits_cons empty, List.append_assoc, List.singleton_append]
        rw [counted] at agree ⊢
        obtain ⟨next, aggregated, nextHolds⟩ :=
          aggregateRow_ok holds rowBound
            (agree.subset fun credit member => List.mem_append_left _ member)
            empty
        obtain ⟨final, folded, finalHolds⟩ :=
          inductionHypothesis nextHolds restBound agree
        refine ⟨final, ?_, finalHolds⟩
        rw [List.foldlM_cons, aggregated]
        exact folded

section Division

variable (rewardAtomic : UInt64)

/-- Key of a collected row in the order of the miners. -/
def minerKey (item : MinerId × CreditedWork) : Nat := item.1.toNat

/-- Weight of a collected row. -/
def minerWeight (item : MinerId × CreditedWork) : Nat := item.2.work

/-- The entry of a miner whose amount is given. -/
def payoutEntry
    (item : MinerId × CreditedWork)
    (amount : Nat) :
    PplnsPayout where
  minerId := item.1
  work := BitVec.ofNat 256 item.2.work
  amount := UInt64.ofNat amount
  payout := item.2.payout

/-- The fractional row of an indexed miner. -/
def fractionalRow
    (totalWork : Nat)
    (indexed : (MinerId × CreditedWork) × Nat) :
    FractionalRow where
  minerId := indexed.1.1
  remainder := remainder minerWeight rewardAtomic.toNat totalWork indexed.1
  payoutIndex := indexed.2

variable {rewardAtomic}

/-- Floors that fit the reward are allocated without an exception. -/
theorem floorPayouts_ok
    {totalWork : Nat}
    {rows : List (MinerId × CreditedWork)}
    (fits : ∀ item ∈ rows, item.2.work < 2 ^ 256)
    {allocated : UInt64}
    (enough :
      allocated.toNat +
          (rows.map
            (floorShare minerWeight rewardAtomic.toNat totalWork)).sum ≤
        rewardAtomic.toNat)
    (index : Nat) :
    ∃ final : UInt64,
      final.toNat =
        allocated.toNat +
          (rows.map
            (floorShare minerWeight rewardAtomic.toNat totalWork)).sum ∧
      floorPayouts rewardAtomic totalWork allocated index rows =
        .ok (final,
          rows.map fun item =>
            payoutEntry item
              (floorShare minerWeight rewardAtomic.toNat totalWork item),
          (rows.zipIdx index).map (fractionalRow rewardAtomic totalWork)) := by
  induction rows generalizing allocated index with
  | nil => exact ⟨allocated, by simp, rfl⟩
  | cons item rest inductionHypothesis =>
      obtain ⟨itemFits, restFits⟩ := List.forall_mem_cons.mp fits
      simp only [List.map_cons, List.sum_cons] at enough ⊢
      generalize sumShape :
        (rest.map
          (floorShare minerWeight rewardAtomic.toNat totalWork)).sum = rests
        at enough ⊢
      generalize amountShape :
        floorShare minerWeight rewardAtomic.toNat totalWork item = amount
        at enough ⊢
      have rewardBound := rewardAtomic.toNat_lt
      have amountValue : (UInt64.ofNat amount).toNat = amount := by
        rw [UInt64.toNat_ofNat']
        exact Nat.mod_eq_of_lt (by omega)
      have order : allocated ≤ rewardAtomic :=
        UInt64.le_iff_toNat_le.mpr (by omega)
      have within : ¬ UInt64.ofNat amount > rewardAtomic - allocated := by
        rw [gt_iff_lt, UInt64.lt_iff_toNat_lt,
          UInt64.toNat_sub_of_le _ _ order, amountValue]
        omega
      have next : (allocated + UInt64.ofNat amount).toNat =
          allocated.toNat + amount := by
        rw [UInt64.toNat_add, amountValue]
        exact Nat.mod_eq_of_lt (by omega)
      obtain ⟨final, value, computed⟩ :=
        @inductionHypothesis restFits (allocated + UInt64.ofNat amount)
          (by rw [next, sumShape]; omega) (index + 1)
      refine ⟨final, by rw [value, next, sumShape]; omega, ?_⟩
      have quotient :
          rewardAtomic.toNat * item.2.work / totalWork = amount :=
        amountShape
      have written : intToWork item.2.work = .ok (BitVec.ofNat 256 item.2.work) :=
        if_pos itemFits
      simp only [floorPayouts, quotient, if_neg within, written, computed, bind,
        Except.bind, pure, Except.pure, List.zipIdx_cons, List.map_cons]
      rfl

/-- Units are added at the places of the chosen rows. -/
theorem foldl_addLeftoverUnit
    {chosen : List FractionalRow}
    (distinct : (chosen.map FractionalRow.payoutIndex).Nodup)
    (payouts : List PplnsPayout)
    (index : Nat) :
    (chosen.foldl addLeftoverUnit payouts)[index]? =
      payouts[index]?.map fun payout =>
        if index ∈ chosen.map FractionalRow.payoutIndex then
          { payout with amount := payout.amount + 1 }
        else payout := by
  induction chosen generalizing payouts with
  | nil => simp
  | cons row rest inductionHypothesis =>
      rw [List.map_cons, List.nodup_cons] at distinct
      rw [List.foldl_cons, inductionHypothesis distinct.2, addLeftoverUnit,
        List.getElem?_modify]
      cases payouts[index]? with
      | none => rfl
      | some payout =>
          by_cases here : row.payoutIndex = index
          · subst here
            simp [distinct.1]
          · simp [here, Ne.symm here]

instance : Std.Total fractionalBefore where
  total left right := by
    unfold fractionalBefore
    simp only [BitVec.le_def]
    omega

instance : IsTrans FractionalRow fractionalBefore where
  trans first second third := by
    unfold fractionalBefore
    simp only [BitVec.le_def]
    omega

/-- The indexed miners in the order in which leftover units are given. -/
theorem exists_orderedMiners
    (rewardAtomic : UInt64)
    (totalWork : Nat)
    {rows : List (MinerId × CreditedWork)}
    (distinct : (rows.map minerKey).Nodup) :
    ∃ ordered : List ((MinerId × CreditedWork) × Nat),
      ordered.Perm rows.zipIdx ∧
      (rows.zipIdx.map (fractionalRow rewardAtomic totalWork)).insertionSort
          fractionalBefore =
        ordered.map (fractionalRow rewardAtomic totalWork) ∧
      ordered.Pairwise fun left right =>
        Precedes minerKey minerWeight rewardAtomic.toNat totalWork left.1
          right.1 := by
  let before := fun left right =>
    fractionalBefore (fractionalRow rewardAtomic totalWork left)
      (fractionalRow rewardAtomic totalWork right)
  have perm := List.perm_insertionSort before rows.zipIdx
  have mapped := List.map_insertionSort before fractionalBefore
    (fractionalRow rewardAtomic totalWork) rows.zipIdx fun _ _ _ _ => Iff.rfl
  refine ⟨rows.zipIdx.insertionSort before, perm, mapped.symm, ?_⟩
  have sorted := List.pairwise_insertionSort fractionalBefore
    (rows.zipIdx.map (fractionalRow rewardAtomic totalWork))
  rw [← mapped, List.pairwise_map] at sorted
  have keys :
      ((rows.zipIdx.insertionSort before).map
        fun indexed => minerKey indexed.1).Nodup := by
    rw [(perm.map fun indexed => minerKey indexed.1).nodup_iff]
    have listed := congrArg (List.map minerKey) (List.zipIdx_map_fst 0 rows)
    rw [List.map_map] at listed
    exact listed ▸ distinct
  refine (sorted.and (List.pairwise_map.mp keys)).imp ?_
  rintro left right ⟨larger | ⟨same, smaller⟩, differs⟩
  · exact .inl larger
  · exact .inr ⟨same, lt_of_le_of_ne (BitVec.le_def.mp smaller) differs⟩

/-- Who gets a leftover unit is decided by rank. -/
theorem mem_chosen_iff
    {totalWork leftover : Nat}
    {rows : List (MinerId × CreditedWork)}
    (distinct : (rows.map minerKey).Nodup)
    {index : Nat}
    {item : MinerId × CreditedWork}
    (place : rows[index]? = some item) :
    index ∈
        (((rows.zipIdx.map
          (fractionalRow rewardAtomic totalWork)).insertionSort
            fractionalBefore).take leftover).map FractionalRow.payoutIndex ↔
      rank (Precedes minerKey minerWeight rewardAtomic.toNat totalWork) rows
        item < leftover := by
  obtain ⟨ordered, perm, listed, sorted⟩ :=
    exists_orderedMiners rewardAtomic totalWork distinct
  have member : (item, index) ∈ ordered := by
    rw [perm.mem_iff, List.mem_zipIdx_iff_getElem?]
    exact place
  have chosen :
      index ∈
          ((ordered.map (fractionalRow rewardAtomic totalWork)).take
            leftover).map FractionalRow.payoutIndex ↔
        (item, index) ∈ ordered.take leftover := by
    rw [← List.map_take, List.map_map, List.mem_map]
    constructor
    · rintro ⟨⟨other, position⟩, taken, same⟩
      change position = index at same
      subst same
      have found := perm.mem_iff.mp (List.mem_of_mem_take taken)
      rw [List.mem_zipIdx_iff_getElem?, place] at found
      cases found
      exact taken
    · intro taken
      exact ⟨(item, index), taken, rfl⟩
  have ranks :
      rank
          (fun left right : (MinerId × CreditedWork) × Nat =>
            Precedes minerKey minerWeight rewardAtomic.toNat totalWork left.1
              right.1) ordered (item, index) =
        rank (Precedes minerKey minerWeight rewardAtomic.toNat totalWork) rows
          item := by
    rw [rank_perm _ perm]
    have counted := congrArg
      (List.countP fun other =>
        Precedes minerKey minerWeight rewardAtomic.toNat totalWork other item)
      (List.zipIdx_map_fst 0 rows)
    rw [List.countP_map] at counted
    exact counted
  rw [listed, chosen,
    mem_take_iff_rank (fun left right => precedes_asymm left.1 right.1) sorted
      member, ranks]

/-- The entries of collected rows after the leftover units are given. -/
def apportionedEntries
    (rewardAtomic : UInt64)
    (rows : List (MinerId × CreditedWork)) :
    List PplnsPayout :=
  rows.map fun item =>
    payoutEntry item
      (apportioned minerKey minerWeight rewardAtomic.toNat rows item)

theorem payoutEntry_succ
    (item : MinerId × CreditedWork)
    (amount : Nat) :
    { payoutEntry item amount with
        amount := (payoutEntry item amount).amount + 1 } =
      payoutEntry item (amount + 1) := by
  simp [payoutEntry, UInt64.ofNat_add]

/-- Giving out the leftover units yields the apportionment. -/
theorem giveLeftover_eq
    {rows : List (MinerId × CreditedWork)}
    (distinct : (rows.map minerKey).Nodup) :
    (((rows.zipIdx.map (fractionalRow rewardAtomic
        (totalWeight minerWeight rows))).insertionSort
          fractionalBefore).take
            (leftoverUnits minerWeight rewardAtomic.toNat rows)).foldl
      addLeftoverUnit
      (rows.map fun item =>
        payoutEntry item
          (floorShare minerWeight rewardAtomic.toNat
            (totalWeight minerWeight rows) item)) =
      apportionedEntries rewardAtomic rows := by
  have indices :
      (((rows.zipIdx.map (fractionalRow rewardAtomic
        (totalWeight minerWeight rows))).insertionSort
          fractionalBefore).take
            (leftoverUnits minerWeight rewardAtomic.toNat rows)).map
        FractionalRow.payoutIndex |>.Nodup := by
    refine ((List.take_sublist _ _).map _).nodup ?_
    rw [((List.perm_insertionSort fractionalBefore _).map _).nodup_iff,
      List.map_map]
    have positions := List.zipIdx_map_snd 0 rows
    exact positions ▸ List.nodup_range'
  refine List.ext_getElem? fun index => ?_
  rw [foldl_addLeftoverUnit indices, List.getElem?_map, apportionedEntries,
    List.getElem?_map]
  cases place : rows[index]? with
  | none => rfl
  | some item =>
      have chosen :
          _ ↔ Favoured minerKey minerWeight rewardAtomic.toNat rows item :=
        @mem_chosen_iff rewardAtomic (totalWeight minerWeight rows)
          (leftoverUnits minerWeight rewardAtomic.toNat rows) rows distinct
          index item place
      simp only [Option.map_some, Option.some.injEq, chosen]
      by_cases favoured :
          Favoured minerKey minerWeight rewardAtomic.toNat rows item
      · rw [apportioned, if_pos favoured, if_pos favoured, payoutEntry_succ]
      · rw [apportioned, if_neg favoured, if_neg favoured, Nat.add_zero]

end Division

/-- The keys of the collected rows are distinct. -/
theorem nodup_minerKey
    (credited : Std.ExtTreeMap MinerId CreditedWork) :
    (credited.toList.map minerKey).Nodup := by
  have mapped := (Credits.nodup_miners credited).map BitVec.toNat_injective
  rw [List.map_map] at mapped
  exact mapped

/-- The allocation of collected rows with work. -/
theorem allocatePplnsReward_of_credits
    {backend : Backend}
    {window : PplnsWindow}
    {credited : Std.ExtTreeMap MinerId CreditedWork}
    (collected :
      window.miners.foldlM (aggregateRow backend) ∅ = .ok credited)
    (positive : 0 < totalWeight minerWeight credited.toList)
    (small : totalWeight minerWeight credited.toList < 2 ^ 256)
    (rewardAtomic : UInt64) :
    allocatePplnsReward backend window rewardAtomic =
      .ok (apportionedEntries rewardAtomic credited.toList) := by
  have distinct := nodup_minerKey credited
  have fits : ∀ item ∈ credited.toList, item.2.work < 2 ^ 256 := by
    intro item member
    refine lt_of_le_of_lt ?_ small
    exact List.single_le_sum (by simp) _ (List.mem_map.mpr ⟨item, member, rfl⟩)
  have floors :=
    @sum_floorShare_le _ minerWeight rewardAtomic.toNat credited.toList positive
  obtain ⟨allocated, value, computed⟩ :=
    @floorPayouts_ok rewardAtomic (totalWeight minerWeight credited.toList)
      credited.toList fits 0 (by simpa using floors) 0
  have leftover :
      (rewardAtomic - allocated).toNat =
        leftoverUnits minerWeight rewardAtomic.toNat credited.toList := by
    rw [UInt64.toNat_sub_of_le _ _ (UInt64.le_iff_toNat_le.mpr (by
      rw [value]; simpa using floors)), value, leftoverUnits]
    simp
  have few :=
    (@leftoverUnits_lt_length _ minerWeight rewardAtomic.toNat credited.toList
      positive).le
  have someRows : credited.toList.isEmpty = false := by
    cases rows : credited.toList with
    | nil =>
        rw [rows] at positive
        simp [totalWeight] at positive
    | cons _ _ => rfl
  have given := @giveLeftover_eq rewardAtomic credited.toList distinct
  have within :
      ¬ (rewardAtomic - allocated).toNat >
        (credited.toList.zipIdx.map (fractionalRow rewardAtomic
          (totalWeight minerWeight credited.toList))).length := by
    rw [leftover]
    simpa using few
  rw [← leftover] at given
  unfold allocatePplnsReward
  simp only [collected, bind, Except.bind, someRows, Bool.false_eq_true,
    if_false]
  have total :
      (credited.toList.map fun item => item.2.work).sum =
        totalWeight minerWeight credited.toList :=
    rfl
  rw [total, if_neg positive.ne', computed]
  simp only
  rw [if_neg within]
  exact congrArg Except.ok given

/-- Work of the rows by miner. -/
def rowWorks (rows : List PplnsMinerWork) : List (MinerId × Nat) :=
  rows.map fun row => (row.minerId, row.work.toNat)

/-- Total work of the rows. -/
def totalWork (rows : List PplnsMinerWork) : Nat :=
  (rows.map fun row => row.work.toNat).sum

/-- Key of an entry in the order of the miners. -/
def payoutKey (payout : PplnsPayout) : Nat := payout.minerId.toNat

/-- Weight of an entry. -/
def payoutWeight (payout : PplnsPayout) : Nat := payout.work.toNat

/-- The entries divide a reward over the rows of a window. -/
structure IsPplnsAllocation
    (rows : List PplnsMinerWork)
    (rewardAtomic : UInt64)
    (payouts : List PplnsPayout) :
    Prop where
  sorted :
    payouts.Pairwise fun left right => left.minerId < right.minerId
  miners :
    ∀ minerId,
      (∃ payout ∈ payouts, payout.minerId = minerId) ↔
        ∃ row ∈ rows, row.minerId = minerId ∧ row.work ≠ 0
  work :
    ∀ payout ∈ payouts,
      payout.work.toNat = keyedSum (rowWorks rows) payout.minerId
  identity :
    ∀ payout ∈ payouts, ∀ keys,
      payout.payout = some keys ↔
        ∃ row ∈ rows,
          row.minerId = payout.minerId ∧ row.work ≠ 0 ∧
            row.payout = some keys
  amount :
    ∀ payout ∈ payouts,
      payout.amount.toNat =
        rewardAtomic.toNat * payout.work.toNat / totalWork rows +
          if rank
                (Precedes payoutKey payoutWeight rewardAtomic.toNat
                  (totalWork rows)) payouts payout <
              rewardAtomic.toNat -
                (payouts.map fun other =>
                  rewardAtomic.toNat * other.work.toNat /
                    totalWork rows).sum then
            1
          else 0
  sum :
    (payouts.map fun payout => payout.amount.toNat).sum = rewardAtomic.toNat
  monotone :
    ∀ first ∈ payouts, ∀ second ∈ payouts,
      first.work < second.work → first.amount ≤ second.amount

/-- Rows without work add nothing to the collected work. -/
theorem keyedSum_rowCredits
    (rows : List PplnsMinerWork)
    (minerId : MinerId) :
    keyedSum (creditWorks (rowCredits rows)) minerId =
      keyedSum (rowWorks rows) minerId := by
  induction rows with
  | nil => rfl
  | cons row rest inductionHypothesis =>
      by_cases empty : row.work.toNat = 0
      · rw [rowCredits_cons_empty empty, inductionHypothesis, rowWorks,
          rowWorks, List.map_cons, keyedSum_cons]
        simp [empty]
      · rw [rowCredits_cons empty, creditWorks, List.map_cons, keyedSum_cons,
          rowWorks, List.map_cons, keyedSum_cons]
        exact congrArg _ inductionHypothesis

theorem mem_rowCredits
    {rows : List PplnsMinerWork}
    {credit : Credit} :
    credit ∈ rowCredits rows ↔
      ∃ row ∈ rows, row.work ≠ 0 ∧ rowCredit row = credit := by
  simp only [rowCredits, List.mem_map, List.mem_filter, decide_eq_true_eq,
    and_assoc]
  refine exists_congr fun row => and_congr_right fun _ => ?_
  refine and_congr_left fun _ => not_congr ?_
  exact ⟨fun zero => BitVec.eq_of_toNat_eq zero, fun zero => by simp [zero]⟩

/-- The collected rows carry the work of the rows of the window. -/
theorem Credits.totalWeight_eq
    {rows : List PplnsMinerWork}
    {credited : Std.ExtTreeMap MinerId CreditedWork}
    (holds : Credits (rowCredits rows) credited) :
    totalWeight minerWeight credited.toList = totalWork rows := by
  refine holds.sum_work.trans ?_
  clear holds
  induction rows with
  | nil => rfl
  | cons row rest inductionHypothesis =>
      by_cases empty : row.work.toNat = 0
      · rw [rowCredits_cons_empty empty, inductionHypothesis]
        simp [totalWork, empty]
      · rw [rowCredits_cons empty]
        simpa [totalWork, creditWorks, rowCredit] using inductionHypothesis

/-- The entries of collected rows divide the reward over the window. -/
theorem Credits.isPplnsAllocation
    {rows : List PplnsMinerWork}
    {credited : Std.ExtTreeMap MinerId CreditedWork}
    (holds : Credits (rowCredits rows) credited)
    (positive : 0 < totalWork rows)
    (small : totalWork rows < 2 ^ 256)
    (rewardAtomic : UInt64) :
    IsPplnsAllocation rows rewardAtomic
      (apportionedEntries rewardAtomic credited.toList) := by
  have distinct := nodup_minerKey credited
  have total := holds.totalWeight_eq
  have lookup :
      ∀ {item : MinerId × CreditedWork}, item ∈ credited.toList →
        credited[item.1]? = some item.2 :=
    fun member => Std.ExtTreeMap.mem_toList_iff_getElem?_eq_some.mp member
  have given :
      (credited.toList.map
        (apportioned minerKey minerWeight rewardAtomic.toNat
          credited.toList)).sum = rewardAtomic.toNat :=
    sum_apportioned distinct (total ▸ positive)
  have weightBound : ∀ item ∈ credited.toList, item.2.work < 2 ^ 256 := by
    intro item member
    refine lt_of_le_of_lt ?_ (total ▸ small)
    exact List.single_le_sum (by simp) _ (List.mem_map.mpr ⟨item, member, rfl⟩)
  have amountValue :
      ∀ item ∈ credited.toList,
        (UInt64.ofNat (apportioned minerKey minerWeight rewardAtomic.toNat
          credited.toList item)).toNat =
        apportioned minerKey minerWeight rewardAtomic.toNat credited.toList
          item := by
    intro item member
    have part :
        apportioned minerKey minerWeight rewardAtomic.toNat credited.toList
          item ≤ rewardAtomic.toNat :=
      (List.single_le_sum (by simp) _
        (List.mem_map.mpr ⟨item, member, rfl⟩)).trans given.le
    rw [UInt64.toNat_ofNat']
    exact Nat.mod_eq_of_lt (lt_of_le_of_lt part rewardAtomic.toNat_lt)
  have sameKey :
      ∀ item ∈ credited.toList,
        payoutKey (payoutEntry item
          (apportioned minerKey minerWeight rewardAtomic.toNat
            credited.toList item)) = minerKey item :=
    fun _ _ => rfl
  have sameWeight :
      ∀ item ∈ credited.toList,
        payoutWeight (payoutEntry item
          (apportioned minerKey minerWeight rewardAtomic.toNat
            credited.toList item)) = minerWeight item := by
    intro item member
    rw [payoutWeight, payoutEntry, BitVec.toNat_ofNat]
    exact Nat.mod_eq_of_lt (weightBound item member)
  constructor
  case sorted =>
    rw [apportionedEntries, List.pairwise_map]
    refine Std.ExtTreeMap.ordered_keys_toList.imp ?_
    intro left right smaller
    exact compareOfLessAndEq_eq_lt.mp smaller
  case miners =>
    intro minerId
    have present :
        (∃ payout ∈ apportionedEntries rewardAtomic credited.toList,
          payout.minerId = minerId) ↔ ∃ row, credited[minerId]? = some row := by
      constructor
      · rintro ⟨payout, member, rfl⟩
        obtain ⟨item, inRows, rfl⟩ := List.mem_map.mp member
        exact ⟨item.2, lookup inRows⟩
      · rintro ⟨row, stored⟩
        exact ⟨_, List.mem_map.mpr ⟨(minerId, row),
          Std.ExtTreeMap.mem_toList_iff_getElem?_eq_some.mpr stored, rfl⟩, rfl⟩
    rw [present, holds.present minerId]
    constructor
    · rintro ⟨credit, member, rfl⟩
      obtain ⟨row, inRows, hasWork, rfl⟩ := mem_rowCredits.mp member
      exact ⟨row, inRows, rfl, hasWork⟩
    · rintro ⟨row, inRows, rfl, hasWork⟩
      exact ⟨rowCredit row, mem_rowCredits.mpr ⟨row, inRows, hasWork, rfl⟩, rfl⟩
  case work =>
    intro payout member
    obtain ⟨item, inRows, rfl⟩ := List.mem_map.mp member
    rw [← keyedSum_rowCredits]
    exact (sameWeight item inRows).trans (holds.work (lookup inRows))
  case identity =>
    intro payout member keys
    obtain ⟨item, inRows, rfl⟩ := List.mem_map.mp member
    change item.2.payout = some keys ↔ _
    rw [holds.payout (lookup inRows) keys]
    constructor
    · rintro ⟨credit, inCredits, sameMiner, carried⟩
      obtain ⟨row, inWindow, hasWork, rfl⟩ := mem_rowCredits.mp inCredits
      exact ⟨row, inWindow, sameMiner, hasWork, carried⟩
    · rintro ⟨row, inWindow, sameMiner, hasWork, carried⟩
      exact ⟨rowCredit row,
        mem_rowCredits.mpr ⟨row, inWindow, hasWork, rfl⟩, sameMiner, carried⟩
  case amount =>
    intro payout member
    obtain ⟨item, inRows, rfl⟩ := List.mem_map.mp member
    rw [← total, ← totalWeight_map sameWeight]
    refine (amountValue item inRows).trans ?_
    exact (apportioned_map sameKey sameWeight inRows).symm
  case sum =>
    rw [apportionedEntries, List.map_map]
    exact (congrArg List.sum (List.map_congr_left amountValue)).trans given
  case monotone =>
    intro first firstMember second secondMember lighter
    obtain ⟨item, inRows, rfl⟩ := List.mem_map.mp firstMember
    obtain ⟨other, otherInRows, rfl⟩ := List.mem_map.mp secondMember
    have lighterWeight : minerWeight item < minerWeight other := by
      rw [← sameWeight item inRows, ← sameWeight other otherInRows]
      exact BitVec.lt_def.mp lighter
    rw [UInt64.le_iff_toNat_le]
    refine (amountValue item inRows).le.trans ?_
    exact (apportioned_mono lighterWeight).trans
      (amountValue other otherInRows).ge

/-- Rows with the same work and payouts by miner are allocated alike. -/
theorem allocatePplnsReward_congr
    {backend : Backend}
    {window : PplnsWindow}
    {others : List PplnsMinerWork}
    (consistent : ConsistentRows backend window.miners)
    (othersConsistent : ConsistentRows backend others)
    (sameWork :
      ∀ minerId,
        keyedSum (rowWorks window.miners) minerId =
          keyedSum (rowWorks others) minerId)
    (sameRows :
      ∀ minerId payout,
        (∃ row ∈ window.miners,
          row.minerId = minerId ∧ row.payout = payout ∧ row.work ≠ 0) ↔
          ∃ row ∈ others,
            row.minerId = minerId ∧ row.payout = payout ∧ row.work ≠ 0)
    (rewardAtomic : UInt64) :
    allocatePplnsReward backend { window with miners := others }
        rewardAtomic =
      allocatePplnsReward backend window rewardAtomic := by
  obtain ⟨credited, collected, holds⟩ :=
    foldlM_aggregateRow_ok Credits.empty consistent.bound consistent.agreeing
  obtain ⟨otherCredited, otherCollected, otherHolds⟩ :=
    foldlM_aggregateRow_ok Credits.empty othersConsistent.bound
      othersConsistent.agreeing
  have payouts :
      ∀ (rows : List PplnsMinerWork) minerId payout,
        (∃ credit ∈ rowCredits rows,
          credit.minerId = minerId ∧ credit.payout = payout) ↔
          ∃ row ∈ rows,
            row.minerId = minerId ∧ row.payout = payout ∧ row.work ≠ 0 := by
    intro rows minerId payout
    constructor
    · rintro ⟨credit, inCredits, rfl, rfl⟩
      obtain ⟨row, inRows, hasWork, rfl⟩ := mem_rowCredits.mp inCredits
      exact ⟨row, inRows, rfl, rfl, hasWork⟩
    · rintro ⟨row, inRows, rfl, rfl, hasWork⟩
      exact ⟨rowCredit row, mem_rowCredits.mpr ⟨row, inRows, hasWork, rfl⟩,
        rfl, rfl⟩
  have alike :
      ∀ minerId payout,
        (∃ credit ∈ rowCredits window.miners,
          credit.minerId = minerId ∧ credit.payout = payout) ↔
          ∃ credit ∈ rowCredits others,
            credit.minerId = minerId ∧ credit.payout = payout := by
    intro minerId payout
    rw [payouts, payouts, sameRows]
  have same : credited = otherCredited := by
    refine holds.unique otherHolds ?_ (fun minerId payout => alike minerId _) ?_
    · intro minerId
      rw [List.nil_append, List.nil_append, keyedSum_rowCredits,
        keyedSum_rowCredits, sameWork]
    · intro minerId
      constructor
      · rintro ⟨credit, member, sameMiner⟩
        obtain ⟨other, inOthers, otherMiner, _⟩ :=
          (alike minerId credit.payout).mp ⟨credit, member, sameMiner, rfl⟩
        exact ⟨other, inOthers, otherMiner⟩
      · rintro ⟨credit, member, sameMiner⟩
        obtain ⟨other, inRows, otherMiner, _⟩ :=
          (alike minerId credit.payout).mpr ⟨credit, member, sameMiner, rfl⟩
        exact ⟨other, inRows, otherMiner⟩
  simp only [allocatePplnsReward, collected, otherCollected, same]

/-- The floor entries keep the miners in order. -/
theorem floorPayouts_miners
    {rewardAtomic : UInt64}
    {totalWork : Nat}
    {allocated final : UInt64}
    {index : Nat}
    {rows : List (MinerId × CreditedWork)}
    {payouts : List PplnsPayout}
    {fractional : List FractionalRow}
    (computed :
      floorPayouts rewardAtomic totalWork allocated index rows =
        .ok (final, payouts, fractional)) :
    payouts.map PplnsPayout.minerId = rows.map Prod.fst := by
  induction rows generalizing allocated index payouts fractional with
  | nil =>
      cases computed
      rfl
  | cons item rest inductionHypothesis =>
      obtain ⟨minerId, row⟩ := item
      unfold floorPayouts at computed
      simp only at computed
      split_ifs at computed
      obtain ⟨work, _, computed⟩ := except_bind_eq_ok.mp computed
      obtain ⟨⟨last, others, rows⟩, next, shape⟩ :=
        except_bind_eq_ok.mp computed
      cases shape
      rw [List.map_cons, List.map_cons, inductionHypothesis next]

theorem foldl_addLeftoverUnit_miners
    (chosen : List FractionalRow)
    (payouts : List PplnsPayout) :
    (chosen.foldl addLeftoverUnit payouts).map PplnsPayout.minerId =
      payouts.map PplnsPayout.minerId := by
  induction chosen generalizing payouts with
  | nil => rfl
  | cons row rest inductionHypothesis =>
      rw [List.foldl_cons, inductionHypothesis]
      refine List.ext_getElem? fun index => ?_
      rw [List.getElem?_map, List.getElem?_map, addLeftoverUnit,
        List.getElem?_modify]
      cases payouts[index]? with
      | none => rfl
      | some payout =>
          simp only [Option.map_eq_map, Option.map_some]
          split_ifs <;> rfl

/-- Whatever is allocated goes to different miners. -/
theorem allocatePplnsReward_nodup
    {backend : Backend}
    {window : PplnsWindow}
    {rewardAtomic : UInt64}
    {payouts : List PplnsPayout}
    (allocated :
      allocatePplnsReward backend window rewardAtomic = .ok payouts) :
    (payouts.map PplnsPayout.minerId).Nodup := by
  unfold allocatePplnsReward at allocated
  obtain ⟨credited, _, allocated⟩ := except_bind_eq_ok.mp allocated
  simp only at allocated
  split_ifs at allocated with empty zero
  · cases allocated
    simp
  obtain ⟨⟨final, floors, fractional⟩, computed, allocated⟩ :=
    except_bind_eq_ok.mp allocated
  simp only at allocated
  split_ifs at allocated
  cases allocated
  rw [foldl_addLeftoverUnit_miners, floorPayouts_miners computed]
  exact Credits.nodup_miners credited

/-- Parts of one row, with its miner, its payout and together its work. -/
structure SplitsRow
    (row : PplnsMinerWork)
    (parts : List PplnsMinerWork) :
    Prop where
  miner : ∀ part ∈ parts, part.minerId = row.minerId
  payout : ∀ part ∈ parts, part.payout = row.payout
  work : totalWork parts = row.work.toNat

namespace SplitsRow

variable {row : PplnsMinerWork} {parts : List PplnsMinerWork}

/-- The parts together weigh what the row weighs. -/
theorem keyedSum_parts
    (splits : SplitsRow row parts)
    (minerId : MinerId) :
    keyedSum (rowWorks parts) minerId =
      if row.minerId = minerId then row.work.toNat else 0 := by
  by_cases same : row.minerId = minerId
  · rw [if_pos same, ← splits.work, keyedSum, List.filter_eq_self.mpr, rowWorks,
      List.map_map]
    · rfl
    · intro entry member
      obtain ⟨part, inParts, rfl⟩ := List.mem_map.mp member
      simpa using (splits.miner part inParts).trans same
  · rw [if_neg same]
    refine keyedSum_of_absent fun entry member => ?_
    obtain ⟨part, inParts, rfl⟩ := List.mem_map.mp member
    rw [splits.miner part inParts]
    exact same

/-- A row has work exactly when one of its parts has. -/
theorem exists_work_iff
    (splits : SplitsRow row parts) :
    (∃ part ∈ parts, part.work ≠ 0) ↔ row.work ≠ 0 := by
  have zero : ∀ work : ChainWork, work = 0 ↔ work.toNat = 0 := fun work =>
    ⟨fun same => by simp [same], fun same => BitVec.eq_of_toNat_eq same⟩
  rw [ne_eq, zero, ← splits.work, totalWork, List.sum_eq_zero_iff]
  simp only [ne_eq, zero, List.mem_map, forall_exists_index, and_imp,
    forall_apply_eq_imp_iff₂, not_forall, exists_prop]

theorem exists_row_iff
    (splits : SplitsRow row parts)
    (minerId : MinerId)
    (payout : Option PayoutPublicKeys) :
    (∃ part ∈ parts,
      part.minerId = minerId ∧ part.payout = payout ∧ part.work ≠ 0) ↔
      row.minerId = minerId ∧ row.payout = payout ∧ row.work ≠ 0 := by
  rw [← splits.exists_work_iff]
  constructor
  · rintro ⟨part, inParts, rfl, rfl, hasWork⟩
    exact ⟨(splits.miner part inParts).symm,
      (splits.payout part inParts).symm, part, inParts, hasWork⟩
  · rintro ⟨rfl, rfl, part, inParts, hasWork⟩
    exact ⟨part, inParts, splits.miner part inParts,
      splits.payout part inParts, hasWork⟩

/-- Each part stands for its row. -/
theorem stands_for
    (splits : SplitsRow row parts)
    {before after : List PplnsMinerWork}
    {part : PplnsMinerWork}
    (member : part ∈ before ++ parts ++ after) :
    ∃ whole ∈ before ++ row :: after,
      whole.minerId = part.minerId ∧ whole.payout = part.payout := by
  simp only [List.mem_append] at member
  rcases member with (early | inParts) | late
  · exact ⟨part, by simp [early], rfl, rfl⟩
  · exact ⟨row, by simp, (splits.miner part inParts).symm,
      (splits.payout part inParts).symm⟩
  · exact ⟨part, by simp [late], rfl, rfl⟩

end SplitsRow

/--
The reward of a consistent window with work is divided exactly, by largest
remainders, whatever the order of the rows and however a row is split.
-/
theorem allocatePplnsReward_exact
    {backend : Backend}
    {window : PplnsWindow}
    (consistent : ConsistentRows backend window.miners)
    (positive : totalWork window.miners ≠ 0)
    (small : totalWork window.miners < 2 ^ 256)
    (rewardAtomic : UInt64) :
    (∃ payouts,
      allocatePplnsReward backend window rewardAtomic = .ok payouts ∧
      IsPplnsAllocation window.miners rewardAtomic payouts) ∧
    (∀ rows, rows.Perm window.miners →
      allocatePplnsReward backend { window with miners := rows }
          rewardAtomic =
        allocatePplnsReward backend window rewardAtomic) ∧
    (∀ before row after parts,
      window.miners = before ++ row :: after →
      SplitsRow row parts →
      allocatePplnsReward backend
          { window with miners := before ++ parts ++ after } rewardAtomic =
        allocatePplnsReward backend window rewardAtomic) := by
  refine ⟨?_, ?_, ?_⟩
  · obtain ⟨credited, collected, holds⟩ :=
      foldlM_aggregateRow_ok Credits.empty consistent.bound
        consistent.agreeing
    rw [List.nil_append] at holds
    have total := holds.totalWeight_eq
    exact ⟨_, allocatePplnsReward_of_credits collected
        (total ▸ Nat.pos_of_ne_zero positive) (total ▸ small) rewardAtomic,
      holds.isPplnsAllocation (Nat.pos_of_ne_zero positive) small
        rewardAtomic⟩
  · intro rows perm
    have member : ∀ row, row ∈ rows ↔ row ∈ window.miners :=
      fun row => perm.mem_iff
    refine allocatePplnsReward_congr consistent ?_ ?_ ?_ rewardAtomic
    · exact ⟨fun row inRows => consistent.bound row ((member row).mp inRows),
        fun first inRows second alsoInRows =>
          consistent.agree first ((member first).mp inRows) second
            ((member second).mp alsoInRows)⟩
    · exact fun minerId => keyedSum_perm (perm.symm.map _) minerId
    · intro minerId payout
      simp only [member]
  · intro before row after parts shape splits
    refine allocatePplnsReward_congr consistent ?_ ?_ ?_ rewardAtomic
    · constructor
      · intro part member payout carried
        obtain ⟨whole, inRows, sameMiner, samePayout⟩ :=
          splits.stands_for member
        rw [← sameMiner]
        exact consistent.bound whole (shape ▸ inRows) payout
          (samePayout.trans carried)
      · intro first firstMember second secondMember payout other carried
          otherCarried sameMiner
        obtain ⟨whole, inRows, wholeMiner, wholePayout⟩ :=
          splits.stands_for firstMember
        obtain ⟨otherWhole, alsoInRows, otherMiner, otherPayout⟩ :=
          splits.stands_for secondMember
        exact consistent.agree whole (shape ▸ inRows) otherWhole
          (shape ▸ alsoInRows) payout other (wholePayout.trans carried)
          (otherPayout.trans otherCarried)
          (wholeMiner.trans (sameMiner.trans otherMiner.symm))
    · intro minerId
      have parts := splits.keyedSum_parts minerId
      simp only [rowWorks] at parts
      rw [shape]
      simp only [rowWorks, List.map_append, List.map_cons, keyedSum_append,
        keyedSum_cons, parts]
      omega
    · intro minerId payout
      rw [shape]
      simp only [List.mem_append, List.mem_cons, or_and_right, exists_or,
        exists_eq_left, splits.exists_row_iff]
      exact or_assoc.symm

/-- A backend whose hash reads the last 32 bytes. -/
def tailBackend : Backend where
  cnFastHash := fun bytes =>
    BitVec.ofNat 256 (ofBigEndian (bytes.drop (bytes.length - 32)))
  progpowzAvailable := true
  progpowzHash := fun _ _ _ _ => .ok { finalHash := 0, mixHash := 0 }

/-- Two rows of miner 1 around a row of miner 9. -/
def sampleRows : List PplnsMinerWork :=
  [ { minerId := 1, work := 3
      payout := some { spendPublicKey := 7, viewPublicKey := 1 } }
  , { minerId := 9, work := 4, payout := none }
  , { minerId := 1, work := 2
      payout := some { spendPublicKey := 7, viewPublicKey := 1 } } ]

/-- Ten units over the sample rows: six to miner 1, four to miner 9. -/
theorem sampleRows_allocation :
    allocatePplnsReward tailBackend { miners := sampleRows } 10 =
        .ok [
          { minerId := 1, work := 5, amount := 6
            payout := some { spendPublicKey := 7, viewPublicKey := 1 } },
          { minerId := 9, work := 4, amount := 4, payout := none }] ∧
      ∃ payouts,
        allocatePplnsReward tailBackend { miners := sampleRows } 10 =
          .ok payouts ∧
        IsPplnsAllocation sampleRows 10 payouts := by
  have carried :
      ∀ row ∈ sampleRows, ∀ payout ∈ row.payout,
        payout = { spendPublicKey := 7, viewPublicKey := 1 } := by
    decide +kernel
  have consistent : ConsistentRows tailBackend sampleRows := by
    constructor
    · decide +kernel
    · intro first inRows second alsoInRows payout other given otherGiven _
      rw [carried first inRows payout given,
        carried second alsoInRows other otherGiven]
  exact ⟨by decide +kernel,
    (@allocatePplnsReward_exact tailBackend { miners := sampleRows }
      consistent (by decide +kernel) (by decide +kernel) 10).1⟩

end ZanoP2pool
