import ZanoP2pool.Foundation.Selection
import ZanoP2pool.RetargetTotal

namespace ZanoP2pool

open Foundation

/-!
# What the retarget computes

The source selects two timestamps by rank, one after the other, on one vector of
32-bit offsets.  Whatever the selection does with the rest of the vector, the
result is one exact value of the samples in the window.
-/

/-- A selection by rank among 32-bit offsets. -/
abbrev OffsetSelection :=
  NthElement (fun left right : UInt32 => left ≤ right)

/-- Offset of one sample from the oldest one, stored in 32 bits. -/
def timestampOffset
    (oldest : UInt64)
    (sample : SidechainDifficultySample) :
    Except Exception UInt32 := do
  let delta ← timestampDelta oldest sample
  return delta.toUInt32

/-- The retarget, with the selection algorithm of the library left open. -/
def calculateNextSidechainDifficultyBy
    (nthElement : OffsetSelection)
    (history : List SidechainDifficultySample)
    (targetShareSeconds minimumShareDifficulty
      difficultyWindowShares : UInt64)
    (networkDifficulty : Difficulty128) :
    Except Exception Difficulty128 := do
  if targetShareSeconds = 0 ∨ minimumShareDifficulty = 0 ∨
      difficultyWindowShares < 2 then
    throw (.invalidArgument "invalid sidechain difficulty parameters")
  if difficulty128IsZero networkDifficulty then
    throw (.invalidArgument "network difficulty must be nonzero")
  let network := networkDifficulty.toNat
  let effectiveMinimum := min minimumShareDifficulty.toNat network
  if history.isEmpty then
    return ← intToDifficulty128 effectiveMinimum
  let sampleCount := min history.length difficultyWindowShares.toNat
  let samples := history.take sampleCount
  let oldest := oldestTimestamp samples
  let timestampDeltas ← samples.mapM (timestampOffset oldest)
  let cutSize := (sampleCount + 9) / 10
  let index1 := cutSize - 1
  let index2 := sampleCount - cutSize
  let reordered := nthElement.reorder timestampDeltas index1
  let timestamp1 := oldest + (reordered.getD index1 0).toUInt64
  let reorderedAgain := nthElement.reorder reordered index2
  let timestamp2 := oldest + (reorderedAgain.getD index2 0).toUInt64
  let deltaIndex : Nat := if index2 > index1 then index2 - index1 else 1
  let timestampSpan : UInt64 :=
    if timestamp2 > timestamp1 then timestamp2 - timestamp1 else 0
  let deltaT := max timestampSpan.toNat deltaIndex
  let retained := samples.filter fun sample =>
    decide (timestamp1 ≤ sample.timestamp) &&
      decide (sample.timestamp ≤ timestamp2)
  match workRange retained with
  | none =>
      throw (.runtimeError "sidechain difficulty retained no samples")
  | some (minimumWork, maximumWork) =>
      let next :=
        (maximumWork - minimumWork) * targetShareSeconds.toNat / deltaT
      intToDifficulty128 (min (max next effectiveMinimum) network)

/-- The timestamps of the samples are more than 32 bits apart. -/
def RangeTooLarge (samples : List SidechainDifficultySample) : Prop :=
  ∃ early ∈ samples, ∃ late ∈ samples,
    2 ^ 32 - 1 < late.timestamp.toNat - early.timestamp.toNat

/-- The cumulative work of the samples of a band of timestamps. -/
def bandWork
    (samples : List SidechainDifficultySample)
    (timestamp1 timestamp2 : Nat) :
    Set Nat :=
  { work | ∃ sample ∈ samples,
      timestamp1 ≤ sample.timestamp.toNat ∧
      sample.timestamp.toNat ≤ timestamp2 ∧
      sample.cumulativeWork.toNat = work }

/-- The retained band of a sample list, and the range of work in it. -/
structure RetargetBand
    (samples : List SidechainDifficultySample)
    (timestamp1 timestamp2 leastWork greatestWork : Nat) :
    Prop where
  lower :
    ((samples.map fun sample => sample.timestamp.toNat).insertionSort
      (· ≤ ·))[samples.length ⌈/⌉ 10 - 1]? = some timestamp1
  upper :
    ((samples.map fun sample => sample.timestamp.toNat).insertionSort
      (· ≤ ·))[samples.length - samples.length ⌈/⌉ 10]? = some timestamp2
  least : IsLeast (bandWork samples timestamp1 timestamp2) leastWork
  greatest : IsGreatest (bandWork samples timestamp1 timestamp2) greatestWork

section Offsets

variable {samples : List SidechainDifficultySample}

/-- Mapping the results of a computation maps the list of its results. -/
theorem mapM_map_result
    {ε α β γ : Type}
    (compute : α → Except ε β)
    (convert : β → γ)
    (items : List α) :
    items.mapM (fun item => (compute item).map convert) =
      (items.mapM compute).map (List.map convert) := by
  induction items with
  | nil => rfl
  | cons item rest inductionHypothesis =>
      rw [List.mapM_cons, List.mapM_cons, inductionHypothesis]
      cases compute item with
      | error thrown => rfl
      | ok value =>
          cases List.mapM compute rest <;> rfl

/-- A computation with one possible error throws it when any element does. -/
theorem mapM_eq_error
    {ε α β : Type}
    {items : List α}
    {compute : α → Except ε β}
    {thrown : ε}
    (each :
      ∀ item ∈ items,
        (∃ value, compute item = .ok value) ∨ compute item = .error thrown)
    (fails : ∃ item ∈ items, compute item = .error thrown) :
    items.mapM compute = .error thrown := by
  induction items with
  | nil => simp at fails
  | cons item rest inductionHypothesis =>
      obtain ⟨here, others⟩ := List.forall_mem_cons.mp each
      rw [List.mapM_cons]
      rcases here with ⟨value, succeeded⟩ | failed
      · have later : ∃ item ∈ rest, compute item = .error thrown := by
          obtain ⟨failing, member, failed⟩ := fails
          rcases List.mem_cons.mp member with rfl | inRest
          · rw [succeeded] at failed
            cases failed
          · exact ⟨failing, inRest, failed⟩
        rw [succeeded, inductionHypothesis others later]
        rfl
      · rw [failed]
        rfl

/-- One of the samples is the oldest. -/
theorem exists_oldest
    (nonempty : samples ≠ []) :
    ∃ sample ∈ samples, sample.timestamp = oldestTimestamp samples := by
  obtain ⟨_, least, reached⟩ :=
    foldl_oldest samples (UInt64.ofNat (2 ^ 64 - 1))
  rcases reached with full | ⟨sample, member, same⟩
  · -- then every timestamp is the greatest 64-bit value
    obtain ⟨sample, member⟩ := List.exists_mem_of_ne_nil samples nonempty
    refine ⟨sample, member, ?_⟩
    have above := least sample member
    have bound := sample.timestamp.toNat_lt
    rw [full, UInt64.le_iff_toNat_le] at above
    have greatest : (UInt64.ofNat (2 ^ 64 - 1)).toNat = 2 ^ 64 - 1 := rfl
    apply UInt64.toNat_inj.mp
    rw [oldestTimestamp, full]
    omega
  · exact ⟨sample, member, same.symm⟩

/-- An offset in natural numbers. -/
theorem toNat_timestampOffset
    {sample : SidechainDifficultySample}
    (member : sample ∈ samples) :
    (sample.timestamp - oldestTimestamp samples).toNat =
      sample.timestamp.toNat - (oldestTimestamp samples).toNat :=
  UInt64.toNat_sub_of_le _ _ (oldestTimestamp_le member)

/-- An offset is refused when it does not fit 32 bits. -/
theorem timestampDelta_eq
    {sample : SidechainDifficultySample}
    (member : sample ∈ samples) :
    timestampDelta (oldestTimestamp samples) sample =
      if sample.timestamp.toNat - (oldestTimestamp samples).toNat >
          2 ^ 32 - 1 then
        .error (.runtimeError
          "sidechain difficulty timestamp range is too large")
      else
        .ok (sample.timestamp - oldestTimestamp samples) := by
  unfold timestampDelta
  simp only [gt_iff_lt, UInt64.lt_iff_toNat_lt, toNat_timestampOffset member]
  rfl

/-- The offsets fit, or one of them is refused. -/
theorem mapM_timestampDelta
    (samples : List SidechainDifficultySample) :
    (¬ RangeTooLarge samples ∧
      samples.mapM (timestampDelta (oldestTimestamp samples)) =
        .ok (samples.map fun sample =>
          sample.timestamp - oldestTimestamp samples)) ∨
    (RangeTooLarge samples ∧
      samples.mapM (timestampDelta (oldestTimestamp samples)) =
        .error (.runtimeError
          "sidechain difficulty timestamp range is too large")) := by
  by_cases empty : samples = []
  · subst empty
    exact .inl ⟨by simp [RangeTooLarge], rfl⟩
  obtain ⟨first, firstIn, firstOldest⟩ := exists_oldest empty
  by_cases large : RangeTooLarge samples
  · refine .inr ⟨large, ?_⟩
    obtain ⟨early, earlyIn, late, lateIn, apart⟩ := large
    have below := UInt64.le_iff_toNat_le.mp (oldestTimestamp_le earlyIn)
    apply mapM_eq_error
    · intro sample member
      rw [timestampDelta_eq member]
      split_ifs
      · exact .inr rfl
      · exact .inl ⟨_, rfl⟩
    · refine ⟨late, lateIn, ?_⟩
      rw [timestampDelta_eq lateIn, if_pos (by omega)]
  · refine .inl ⟨large, mapM_eq_ok_map ?_⟩
    intro sample member
    rw [timestampDelta_eq member, if_neg]
    intro apart
    refine large ⟨first, firstIn, sample, member, ?_⟩
    rw [firstOldest]
    exact apart

/-- Offsets in 32 bits are the offsets in 64 bits, where these fit. -/
theorem mapM_timestampOffset
    (oldest : UInt64)
    (samples : List SidechainDifficultySample) :
    samples.mapM (timestampOffset oldest) =
      (samples.mapM (timestampDelta oldest)).map (List.map UInt64.toUInt32) :=
  mapM_map_result (timestampDelta oldest) UInt64.toUInt32 samples

/-- Storing fitting offsets in 32 bits keeps their ranks. -/
theorem getD_offsets
    {deltas : List UInt64}
    (fit : ∀ delta ∈ deltas, delta.toNat < 2 ^ 32)
    (rank : Nat) :
    (((deltas.map UInt64.toUInt32).insertionSort
        fun left right => left ≤ right).getD rank 0).toUInt64 =
      (deltas.insertionSort (· ≤ ·)).getD rank 0 := by
  have narrow (delta : UInt64) (member : delta ∈ deltas) :
      delta.toUInt32.toNat = delta.toNat := by
    rw [UInt64.toNat_toUInt32, Nat.mod_eq_of_lt (fit delta member)]
  have ordered :
      ∀ left ∈ deltas, ∀ right ∈ deltas,
        left ≤ right ↔ left.toUInt32 ≤ right.toUInt32 := by
    intro left leftIn right rightIn
    rw [UInt64.le_iff_toNat_le, UInt32.le_iff_toNat_le, narrow left leftIn,
      narrow right rightIn]
  rw [← List.map_insertionSort (· ≤ ·) (fun left right => left ≤ right)
    UInt64.toUInt32 deltas ordered]
  by_cases inside : rank < (deltas.insertionSort (· ≤ ·)).length
  · have member : (deltas.insertionSort (· ≤ ·)).getD rank 0 ∈ deltas := by
      rw [List.getD_eq_getElem _ _ inside, ← List.mem_insertionSort (· ≤ ·)]
      exact List.getElem_mem inside
    have zero : (0 : UInt32) = (0 : UInt64).toUInt32 := rfl
    rw [zero, List.getD_map]
    apply UInt64.toNat_inj.mp
    rw [UInt32.toNat_toUInt64, narrow _ member]
  · rw [List.getD_eq_default _ _ (by simpa using inside),
      List.getD_eq_default _ _ (by simpa using inside)]
    rfl

/-- The timestamp of a rank is the oldest one with the offset of that rank. -/
theorem toNat_rankedTimestamp
    {rank : Nat}
    (inside : rank < samples.length) :
    ((samples.map fun sample => sample.timestamp.toNat).insertionSort
        (· ≤ ·))[rank]? =
      some (oldestTimestamp samples +
        ((samples.map fun sample =>
          sample.timestamp - oldestTimestamp samples).insertionSort
            (· ≤ ·)).getD rank 0).toNat := by
  have restored (sample : SidechainDifficultySample) :
      oldestTimestamp samples +
          (sample.timestamp - oldestTimestamp samples) =
        sample.timestamp :=
    add_sub_cancel _ _
  have mapped :
      (samples.map fun sample => sample.timestamp.toNat) =
        (samples.map fun sample =>
          sample.timestamp - oldestTimestamp samples).map
            fun delta => (oldestTimestamp samples + delta).toNat := by
    rw [List.map_map]
    apply List.map_congr_left
    intro sample _
    rw [Function.comp_apply, restored]
  have ordered :
      ∀ left ∈ samples.map fun sample =>
          sample.timestamp - oldestTimestamp samples,
        ∀ right ∈ samples.map fun sample =>
            sample.timestamp - oldestTimestamp samples,
          left ≤ right ↔
            (oldestTimestamp samples + left).toNat ≤
              (oldestTimestamp samples + right).toNat := by
    intro left leftIn right rightIn
    obtain ⟨first, firstIn, rfl⟩ := List.mem_map.mp leftIn
    obtain ⟨second, secondIn, rfl⟩ := List.mem_map.mp rightIn
    have firstOldest := UInt64.le_iff_toNat_le.mp (oldestTimestamp_le firstIn)
    have secondOldest :=
      UInt64.le_iff_toNat_le.mp (oldestTimestamp_le secondIn)
    rw [restored, restored, UInt64.le_iff_toNat_le, toNat_timestampOffset firstIn,
      toNat_timestampOffset secondIn]
    omega
  rw [mapped, ← List.map_insertionSort (· ≤ ·) (· ≤ ·) _ _ ordered,
    List.getElem?_map, List.getElem?_eq_getElem (by simpa using inside),
    List.getD_eq_getElem _ _ (by simpa using inside)]
  rfl

end Offsets

/-- The scan keeps the least and the greatest work it has seen. -/
theorem foldl_workRange
    (samples : List SidechainDifficultySample)
    {seen : Set Nat}
    {least greatest : Nat}
    (isLeast : IsLeast seen least)
    (isGreatest : IsGreatest seen greatest) :
    let range := samples.foldl
      (fun range other =>
        (min range.1 other.cumulativeWork.toNat,
          max range.2 other.cumulativeWork.toNat)) (least, greatest)
    let all := seen ∪
      { work | ∃ sample ∈ samples, sample.cumulativeWork.toNat = work }
    IsLeast all range.1 ∧ IsGreatest all range.2 := by
  induction samples generalizing seen least greatest with
  | nil => simpa using ⟨isLeast, isGreatest⟩
  | cons sample rest inductionHypothesis =>
      have extended :=
        inductionHypothesis
          (isLeast.union (isLeast_singleton
            (a := sample.cumulativeWork.toNat)))
          (isGreatest.union (isGreatest_singleton
            (a := sample.cumulativeWork.toNat)))
      have same :
          seen ∪ {sample.cumulativeWork.toNat} ∪
              { work | ∃ other ∈ rest, other.cumulativeWork.toNat = work } =
            seen ∪ { work | ∃ other ∈ sample :: rest,
              other.cumulativeWork.toNat = work } := by
        ext work
        simp only [Set.mem_union, Set.mem_singleton_iff, Set.mem_ofPred_eq,
          List.exists_mem_cons_iff, or_assoc, eq_comm]
      rw [same] at extended
      exact extended

/-- The range of work is the least and the greatest work of the list. -/
theorem workRange_extremes
    {samples : List SidechainDifficultySample}
    {least greatest : Nat}
    (ranged : workRange samples = some (least, greatest)) :
    IsLeast { work | ∃ sample ∈ samples,
        sample.cumulativeWork.toNat = work } least ∧
      IsGreatest { work | ∃ sample ∈ samples,
        sample.cumulativeWork.toNat = work } greatest := by
  cases samples with
  | nil => cases ranged
  | cons sample rest =>
      have extremes := foldl_workRange rest
        (isLeast_singleton (a := sample.cumulativeWork.toNat))
        (isGreatest_singleton (a := sample.cumulativeWork.toNat))
      have same :
          {sample.cumulativeWork.toNat} ∪
              { work | ∃ other ∈ rest, other.cumulativeWork.toNat = work } =
            { work | ∃ other ∈ sample :: rest,
              other.cumulativeWork.toNat = work } := by
        ext work
        simp only [Set.mem_union, Set.mem_singleton_iff, Set.mem_ofPred_eq,
          List.exists_mem_cons_iff, eq_comm]
      simp only [workRange, Option.some.injEq] at ranged
      rw [ranged, same] at extremes
      exact extremes

/-- The samples between two timestamps have the work of the band. -/
theorem bandWork_eq
    (samples : List SidechainDifficultySample)
    (timestamp1 timestamp2 : UInt64) :
    { work | ∃ sample ∈ samples.filter fun sample =>
        decide (timestamp1 ≤ sample.timestamp) &&
          decide (sample.timestamp ≤ timestamp2),
      sample.cumulativeWork.toNat = work } =
      bandWork samples timestamp1.toNat timestamp2.toNat := by
  ext work
  simp only [bandWork, Set.mem_ofPred_eq, List.mem_filter, Bool.and_eq_true,
    decide_eq_true_eq, UInt64.le_iff_toNat_le, and_assoc]

/-- The divisor of the retarget in natural numbers; it is never zero. -/
theorem retargetDivisor_eq
    {count : Nat}
    (positive : 0 < count)
    (timestamp1 timestamp2 : UInt64) :
    max
        (if timestamp2 > timestamp1 then timestamp2 - timestamp1
          else 0 : UInt64).toNat
        (if count - (count + 9) / 10 > (count + 9) / 10 - 1 then
          count - (count + 9) / 10 - ((count + 9) / 10 - 1)
        else 1) =
      max (timestamp2.toNat - timestamp1.toNat)
        (max 1 (count + 1 - 2 * (count ⌈/⌉ 10))) := by
  have span :
      (if timestamp2 > timestamp1 then timestamp2 - timestamp1
        else 0 : UInt64).toNat =
        timestamp2.toNat - timestamp1.toNat := by
    by_cases later : timestamp2 > timestamp1
    · rw [if_pos later,
        UInt64.toNat_sub_of_le _ _ (UInt64.le_of_lt later)]
    · rw [if_neg later]
      rw [gt_iff_lt, UInt64.lt_iff_toNat_lt] at later
      have zero : (0 : UInt64).toNat = 0 := rfl
      omega
  rw [span, Nat.ceilDiv_eq_add_pred_div]
  congr 1
  split_ifs <;> omega

/-- A value clamped between the minimum and the network difficulty is stored. -/
theorem intToDifficulty128_clamped
    {minimum network : Nat}
    (minimumPositive : minimum ≠ 0)
    (networkPositive : network ≠ 0)
    (bounded : network < 2 ^ 128)
    (value : Nat) :
    ∃ difficulty : Difficulty128,
      intToDifficulty128 (min (max value (min minimum network)) network) =
        .ok difficulty ∧
      difficulty.toNat = max (min minimum network) (min value network) := by
  refine ⟨_, intToDifficulty128_ok (by omega) (by omega), ?_⟩
  rw [BitVec.toNat_ofNat, Nat.mod_eq_of_lt (by omega)]
  omega

section Retarget

variable
  {history : List SidechainDifficultySample}
  {targetShareSeconds minimumShareDifficulty difficultyWindowShares : UInt64}
  {networkDifficulty : Difficulty128}

/-- Any selection by rank gives the retarget of the share chain. -/
theorem calculateNextSidechainDifficultyBy_eq
    (nthElement : OffsetSelection)
    (history : List SidechainDifficultySample)
    (targetShareSeconds minimumShareDifficulty
      difficultyWindowShares : UInt64)
    (networkDifficulty : Difficulty128) :
    calculateNextSidechainDifficultyBy nthElement history targetShareSeconds
        minimumShareDifficulty difficultyWindowShares networkDifficulty =
      calculateNextSidechainDifficulty history targetShareSeconds
        minimumShareDifficulty difficultyWindowShares networkDifficulty := by
  unfold calculateNextSidechainDifficultyBy calculateNextSidechainDifficulty
  by_cases parameters :
      targetShareSeconds = 0 ∨ minimumShareDifficulty = 0 ∨
        difficultyWindowShares < 2
  · rw [if_pos parameters, if_pos parameters]
    rfl
  rw [if_neg parameters, if_neg parameters]
  by_cases zero : difficulty128IsZero networkDifficulty = true
  · rw [if_pos zero, if_pos zero]
    rfl
  rw [if_neg zero, if_neg zero]
  by_cases empty : history.isEmpty = true
  · rw [if_pos empty, if_pos empty]
  rw [if_neg empty, if_neg empty]
  have usable : 0 < min history.length difficultyWindowShares.toNat := by
    have long : 0 < history.length := by
      rw [List.isEmpty_iff] at empty
      exact List.length_pos_iff.mpr empty
    have window : ¬ difficultyWindowShares < 2 := fun small =>
      parameters (.inr (.inr small))
    rw [UInt64.lt_iff_toNat_lt] at window
    have two : (2 : UInt64).toNat = 2 := rfl
    omega
  generalize counted :
    min history.length difficultyWindowShares.toNat = sampleCount at usable
  have length : (history.take sampleCount).length = sampleCount := by
    rw [List.length_take]
    omega
  simp only [mapM_timestampOffset]
  generalize history.take sampleCount = samples at length ⊢
  rcases mapM_timestampDelta samples with
    ⟨fits, deltas⟩ | ⟨_, thrown⟩
  · rw [deltas]
    have small :
        ∀ delta ∈ samples.map fun sample =>
            sample.timestamp - oldestTimestamp samples,
          delta.toNat < 2 ^ 32 := by
      intro delta member
      obtain ⟨sample, inSamples, rfl⟩ := List.mem_map.mp member
      obtain ⟨first, firstIn, firstOldest⟩ :=
        exists_oldest (List.ne_nil_of_mem inSamples)
      have near : ¬ 2 ^ 32 - 1 <
          sample.timestamp.toNat - first.timestamp.toNat :=
        fun apart => fits ⟨first, firstIn, sample, inSamples, apart⟩
      rw [toNat_timestampOffset inSamples, ← firstOldest]
      omega
    obtain ⟨ordered, inside⟩ := retainedRanks usable
    have offsetsLength :
        ((samples.map fun sample =>
          sample.timestamp - oldestTimestamp samples).map
            UInt64.toUInt32).length = sampleCount := by
      rw [List.length_map, List.length_map, length]
    have firstInside : (sampleCount + 9) / 10 - 1 < sampleCount := by omega
    have first := nthElement.getD_reorder
      (lt_of_lt_of_eq firstInside offsetsLength.symm) 0
    have second := nthElement.getD_reorder_reorder
      (lt_of_lt_of_eq inside offsetsLength.symm)
      ((sampleCount + 9) / 10 - 1) 0
    simp only [Except.map, bind, Except.bind, first, second,
      getD_offsets small, -eq_self]
    rfl
  · simp only [thrown, bind, Except.bind, Except.map]

/-- What the retarget of a nonempty window computes. -/
theorem calculateNextSidechainDifficulty_exact
    (usable :
      ¬ (targetShareSeconds = 0 ∨ minimumShareDifficulty = 0 ∨
        difficultyWindowShares < 2))
    (nonzero : networkDifficulty ≠ 0)
    {samples : List SidechainDifficultySample}
    (windowed :
      history.take (min history.length difficultyWindowShares.toNat) =
        samples)
    (nonempty : samples ≠ [])
    (fits : ¬ RangeTooLarge samples) :
    ∃ timestamp1 timestamp2 leastWork greatestWork difficulty,
      RetargetBand samples timestamp1 timestamp2 leastWork greatestWork ∧
      calculateNextSidechainDifficulty history targetShareSeconds
          minimumShareDifficulty difficultyWindowShares networkDifficulty =
        .ok difficulty ∧
      difficulty.toNat =
        max (min minimumShareDifficulty.toNat networkDifficulty.toNat)
          (min
            ((greatestWork - leastWork) * targetShareSeconds.toNat /
              max (timestamp2 - timestamp1)
                (max 1 (samples.length + 1 - 2 * (samples.length ⌈/⌉ 10))))
            networkDifficulty.toNat) := by
  have networkPositive : networkDifficulty.toNat ≠ 0 :=
    fun zero => nonzero (BitVec.eq_of_toNat_eq zero)
  have minimumPositive : minimumShareDifficulty.toNat ≠ 0 := by
    intro zero
    exact usable (.inr (.inl (UInt64.toNat_inj.mp zero)))
  have bounded := networkDifficulty.isLt
  have historyNonempty : history ≠ [] := by
    rintro rfl
    rw [List.take_nil] at windowed
    exact nonempty windowed.symm
  have positive : 0 < samples.length := List.length_pos_iff.mpr nonempty
  obtain ⟨ordered, inside⟩ := retainedRanks positive
  have counted :
      min history.length difficultyWindowShares.toNat = samples.length := by
    rw [← windowed, List.length_take]
    omega
  rw [counted] at windowed
  have deltas := (mapM_timestampDelta samples).elim And.right
    fun large => absurd large.1 fits
  have lower := toNat_rankedTimestamp (lt_of_le_of_lt ordered inside)
  have upper := toNat_rankedTimestamp inside
  have retained := @retained_nonempty samples _ _ ordered inside
  obtain ⟨⟨leastWork, greatestWork⟩, ranged⟩ := workRange_isSome retained
  obtain ⟨isLeast, isGreatest⟩ := workRange_extremes ranged
  rw [bandWork_eq] at isLeast isGreatest
  have clamped := intToDifficulty128_clamped minimumPositive networkPositive
    bounded
  obtain ⟨difficulty, stored, value⟩ := clamped _
  refine ⟨_, _, leastWork, greatestWork, difficulty,
    ⟨lower, upper, isLeast, isGreatest⟩, ?_, value⟩
  unfold calculateNextSidechainDifficulty
  rw [if_neg usable]
  simp only [difficulty128IsZero_eq_false.mpr nonzero, Bool.false_eq_true,
    if_false, List.isEmpty_iff, historyNonempty, windowed, counted, deltas,
    bind, Except.bind, ranged, retargetDivisor_eq positive]
  exact stored

/-- An empty window asks for the minimum. -/
theorem calculateNextSidechainDifficulty_empty
    (usable :
      ¬ (targetShareSeconds = 0 ∨ minimumShareDifficulty = 0 ∨
        difficultyWindowShares < 2))
    (nonzero : networkDifficulty ≠ 0) :
    ∃ difficulty,
      calculateNextSidechainDifficulty [] targetShareSeconds
          minimumShareDifficulty difficultyWindowShares networkDifficulty =
        .ok difficulty ∧
      difficulty.toNat =
        min minimumShareDifficulty.toNat networkDifficulty.toNat := by
  have networkPositive : networkDifficulty.toNat ≠ 0 :=
    fun zero => nonzero (BitVec.eq_of_toNat_eq zero)
  have minimumPositive : minimumShareDifficulty.toNat ≠ 0 := by
    intro zero
    exact usable (.inr (.inl (UInt64.toNat_inj.mp zero)))
  have bounded := networkDifficulty.isLt
  refine ⟨BitVec.ofNat 128
    (min minimumShareDifficulty.toNat networkDifficulty.toNat), ?_, ?_⟩
  · unfold calculateNextSidechainDifficulty
    rw [if_neg usable]
    simp only [difficulty128IsZero_eq_false.mpr nonzero, Bool.false_eq_true,
      if_false, List.isEmpty_nil, if_true]
    rw [intToDifficulty128_ok (by omega) (by omega)]
  · rw [BitVec.toNat_ofNat, Nat.mod_eq_of_lt (by omega)]

/-- A window whose timestamps are too far apart is refused. -/
theorem calculateNextSidechainDifficulty_tooLarge
    (usable :
      ¬ (targetShareSeconds = 0 ∨ minimumShareDifficulty = 0 ∨
        difficultyWindowShares < 2))
    (nonzero : networkDifficulty ≠ 0)
    (large :
      RangeTooLarge
        (history.take (min history.length difficultyWindowShares.toNat))) :
    calculateNextSidechainDifficulty history targetShareSeconds
        minimumShareDifficulty difficultyWindowShares networkDifficulty =
      .error (.runtimeError
        "sidechain difficulty timestamp range is too large") := by
  have historyNonempty : history ≠ [] := by
    rintro rfl
    simp [RangeTooLarge] at large
  have deltas := (mapM_timestampDelta _).elim
    (fun fits => absurd large fits.1) And.right
  unfold calculateNextSidechainDifficulty
  rw [if_neg usable]
  simp only [difficulty128IsZero_eq_false.mpr nonzero, Bool.false_eq_true,
    if_false, List.isEmpty_iff, historyNonempty, deltas, bind, Except.bind]

theorem calculateNextSidechainDifficulty_zeroNetwork
    (usable :
      ¬ (targetShareSeconds = 0 ∨ minimumShareDifficulty = 0 ∨
        difficultyWindowShares < 2)) :
    calculateNextSidechainDifficulty history targetShareSeconds
        minimumShareDifficulty difficultyWindowShares 0 =
      .error (.invalidArgument "network difficulty must be nonzero") := by
  unfold calculateNextSidechainDifficulty
  rw [if_neg usable]
  rfl

/-- The samples of one window have one band, in whatever order they stand. -/
theorem RetargetBand.unique
    {samples others : List SidechainDifficultySample}
    (same : others.Perm samples)
    {first1 first2 firstLeast firstGreatest : Nat}
    {second1 second2 secondLeast secondGreatest : Nat}
    (first : RetargetBand samples first1 first2 firstLeast firstGreatest)
    (second :
      RetargetBand others second1 second2 secondLeast secondGreatest) :
    second1 = first1 ∧ second2 = first2 ∧ secondLeast = firstLeast ∧
      secondGreatest = firstGreatest := by
  obtain ⟨lower, upper, least, greatest⟩ := second
  have sorted := insertionSort_eq_of_perm (r := (· ≤ ·))
    (same.map fun sample => sample.timestamp.toNat)
  have work (timestamp1 timestamp2 : Nat) :
      bandWork others timestamp1 timestamp2 =
        bandWork samples timestamp1 timestamp2 := by
    simp only [bandWork, same.mem_iff]
  rw [sorted, same.length_eq, first.lower] at lower
  rw [sorted, same.length_eq, first.upper] at upper
  cases lower
  cases upper
  rw [work] at least greatest
  exact ⟨rfl, rfl, least.unique first.least, greatest.unique first.greatest⟩

/-- Rearranged samples are as far apart. -/
theorem RangeTooLarge.congr
    {samples others : List SidechainDifficultySample}
    (same : others.Perm samples) :
    RangeTooLarge others ↔ RangeTooLarge samples := by
  simp only [RangeTooLarge, same.mem_iff]

/-- A window of at least two samples is empty only for an empty history. -/
theorem take_window_eq_nil
    (usable :
      ¬ (targetShareSeconds = 0 ∨ minimumShareDifficulty = 0 ∨
        difficultyWindowShares < 2)) :
    history.take (min history.length difficultyWindowShares.toNat) = [] ↔
      history = [] := by
  have window : ¬ difficultyWindowShares.toNat < 2 := fun small =>
    usable (.inr (.inr (UInt64.lt_iff_toNat_lt.mpr small)))
  rw [List.take_eq_nil_iff, ← List.length_eq_zero_iff]
  omega

/-- Only the samples in the window count, in any order. -/
theorem calculateNextSidechainDifficulty_perm
    (usable :
      ¬ (targetShareSeconds = 0 ∨ minimumShareDifficulty = 0 ∨
        difficultyWindowShares < 2))
    (nonzero : networkDifficulty ≠ 0)
    {other : List SidechainDifficultySample}
    (same :
      (other.take (min other.length difficultyWindowShares.toNat)).Perm
        (history.take (min history.length difficultyWindowShares.toNat))) :
    calculateNextSidechainDifficulty other targetShareSeconds
        minimumShareDifficulty difficultyWindowShares networkDifficulty =
      calculateNextSidechainDifficulty history targetShareSeconds
        minimumShareDifficulty difficultyWindowShares networkDifficulty := by
  by_cases large :
      RangeTooLarge
        (history.take (min history.length difficultyWindowShares.toNat))
  · rw [calculateNextSidechainDifficulty_tooLarge usable nonzero large,
      calculateNextSidechainDifficulty_tooLarge usable nonzero
        ((RangeTooLarge.congr same).mpr large)]
  by_cases empty : history = []
  · have otherEmpty : other = [] := by
      rw [← take_window_eq_nil usable]
      rw [(take_window_eq_nil usable).mpr empty] at same
      exact same.eq_nil
    rw [empty, otherEmpty]
  have nonempty := mt (take_window_eq_nil usable).mp empty
  have otherNonempty :
      other.take (min other.length difficultyWindowShares.toNat) ≠ [] := by
    intro nothing
    rw [nothing] at same
    exact nonempty same.symm.eq_nil
  obtain ⟨_, _, _, _, difficulty, band, computed, value⟩ :=
    calculateNextSidechainDifficulty_exact usable nonzero rfl nonempty large
  obtain ⟨_, _, _, _, otherDifficulty, otherBand, otherComputed, otherValue⟩ :=
    calculateNextSidechainDifficulty_exact usable nonzero rfl otherNonempty
      (mt (RangeTooLarge.congr same).mp large)
  obtain ⟨rfl, rfl, rfl, rfl⟩ := RetargetBand.unique same band otherBand
  rw [same.length_eq, ← value] at otherValue
  rw [computed, otherComputed, BitVec.eq_of_toNat_eq otherValue]

/--
With usable parameters and a nonzero network difficulty the retarget refuses only
windows whose timestamps are too far apart.  Otherwise it computes the minimum
for an empty window and else the work of the retained band, scaled to the target
and clamped.  The result depends on the samples of the window, not on their order.
-/
theorem calculateNextSidechainDifficulty_spec
    (nthElement : OffsetSelection)
    (history : List SidechainDifficultySample)
    (targetShareSeconds minimumShareDifficulty
      difficultyWindowShares : UInt64)
    (networkDifficulty : Difficulty128)
    (target : 1 ≤ targetShareSeconds.toNat)
    (minimum : 1 ≤ minimumShareDifficulty.toNat)
    (window : 2 ≤ difficultyWindowShares.toNat)
    (nonzero : networkDifficulty ≠ 0) :
    let windowOf := fun history : List SidechainDifficultySample =>
      history.take (min history.length difficultyWindowShares.toNat)
    let calculate := fun history =>
      calculateNextSidechainDifficultyBy nthElement history
        targetShareSeconds minimumShareDifficulty difficultyWindowShares
        networkDifficulty
    let samples := windowOf history
    let count := samples.length
    let effectiveMinimum :=
      min minimumShareDifficulty.toNat networkDifficulty.toNat
    (∀ thrown,
      calculate history = .error thrown ↔
        (samples ≠ [] ∧ RangeTooLarge samples) ∧
          thrown = .runtimeError
            "sidechain difficulty timestamp range is too large") ∧
    (samples = [] →
      ∃ difficulty,
        calculate history = .ok difficulty ∧
        difficulty.toNat = effectiveMinimum) ∧
    (samples ≠ [] →
      ¬ RangeTooLarge samples →
      ∃ timestamp1 timestamp2 leastWork greatestWork difficulty,
        RetargetBand samples timestamp1 timestamp2 leastWork greatestWork ∧
        calculate history = .ok difficulty ∧
        difficulty.toNat =
          max effectiveMinimum
            (min
              ((greatestWork - leastWork) * targetShareSeconds.toNat /
                max (timestamp2 - timestamp1)
                  (max 1 (count + 1 - 2 * (count ⌈/⌉ 10))))
              networkDifficulty.toNat)) ∧
    (∀ difficulty,
      calculate history = .ok difficulty →
        difficulty ≠ 0 ∧ difficulty ≤ networkDifficulty) ∧
    (∀ other, (windowOf other).Perm samples →
      calculate other = calculate history) ∧
    calculate samples = calculate history := by
  intro windowOf calculate samples count effectiveMinimum
  have usable :
      ¬ (targetShareSeconds = 0 ∨ minimumShareDifficulty = 0 ∨
        difficultyWindowShares < 2) := by
    rintro (rfl | rfl | small)
    · exact absurd target (by decide)
    · exact absurd minimum (by decide)
    · exact absurd (UInt64.lt_iff_toNat_lt.mp small) (not_lt.mpr window)
  have calculated (history : List SidechainDifficultySample) :
      calculate history =
        calculateNextSidechainDifficulty history targetShareSeconds
          minimumShareDifficulty difficultyWindowShares networkDifficulty :=
    calculateNextSidechainDifficultyBy_eq nthElement history
      targetShareSeconds minimumShareDifficulty difficultyWindowShares
      networkDifficulty
  have atEmpty (empty : samples = []) :
      ∃ difficulty,
        calculate history = .ok difficulty ∧
        difficulty.toNat = effectiveMinimum := by
    have none : history = [] := (take_window_eq_nil usable).mp empty
    rw [calculated, none]
    exact calculateNextSidechainDifficulty_empty usable nonzero
  have inBand (nonempty : samples ≠ []) (fits : ¬ RangeTooLarge samples) :=
    calculateNextSidechainDifficulty_exact usable nonzero
      (rfl : windowOf history = samples) nonempty fits
  have refused (large : RangeTooLarge samples) :
      calculate history =
        .error (.runtimeError
          "sidechain difficulty timestamp range is too large") :=
    (calculated history).trans
      (calculateNextSidechainDifficulty_tooLarge usable nonzero large)
  have accepted (fits : ¬ RangeTooLarge samples) :
      ∃ difficulty,
        calculate history = .ok difficulty ∧
        effectiveMinimum ≤ difficulty.toNat ∧
        difficulty.toNat ≤ networkDifficulty.toNat := by
    by_cases empty : samples = []
    · obtain ⟨difficulty, computed, value⟩ := atEmpty empty
      exact ⟨difficulty, computed, by omega, by omega⟩
    · obtain ⟨_, _, _, _, difficulty, _, computed, value⟩ := inBand empty fits
      exact ⟨difficulty, (calculated history).trans computed, by omega,
        by omega⟩
  have networkPositive : networkDifficulty.toNat ≠ 0 :=
    fun zero => nonzero (BitVec.eq_of_toNat_eq zero)
  have windowed (other : List SidechainDifficultySample)
      (same : (windowOf other).Perm samples) :
      calculate other = calculate history := by
    rw [calculated, calculated]
    exact calculateNextSidechainDifficulty_perm usable nonzero same
  refine ⟨?_, atEmpty, ?_, ?_, windowed, ?_⟩
  · intro thrown
    by_cases large : RangeTooLarge samples
    · have nonempty : samples ≠ [] := by
        obtain ⟨early, member, _⟩ := large
        exact List.ne_nil_of_mem member
      rw [refused large]
      simp [nonempty, large, eq_comm]
    · obtain ⟨difficulty, computed, _⟩ := accepted large
      rw [computed]
      simp [large]
  · intro nonempty fits
    obtain ⟨timestamp1, timestamp2, leastWork, greatestWork, difficulty, band,
      computed, value⟩ := inBand nonempty fits
    exact ⟨timestamp1, timestamp2, leastWork, greatestWork, difficulty, band,
      (calculated history).trans computed, value⟩
  · intro difficulty computed
    have fits : ¬ RangeTooLarge samples := by
      intro large
      rw [refused large] at computed
      cases computed
    obtain ⟨other, otherComputed, above, below⟩ := accepted fits
    rw [computed] at otherComputed
    cases otherComputed
    refine ⟨?_, below⟩
    rintro rfl
    have zero : BitVec.toNat (0 : Difficulty128) = 0 := rfl
    omega
  · apply windowed
    have short : samples.length ≤ difficultyWindowShares.toNat := by
      simp only [samples, windowOf, List.length_take]
      omega
    have whole : windowOf samples = samples := by
      simp only [windowOf, Nat.min_eq_left short, List.take_length]
    rw [whole]

/-- Three samples of one window, the last of them with the oldest timestamp. -/
theorem calculateNextSidechainDifficulty_spec_sample :
    ∃ difficulty,
      calculateNextSidechainDifficultyBy .bySorting
          [⟨30, 9⟩, ⟨20, 4⟩, ⟨10, 2⟩] 10 1 4 50 = .ok difficulty ∧
      difficulty ≠ 0 ∧ difficulty ≤ 50 := by
  obtain ⟨_, _, _, bounds, _, _⟩ :=
    calculateNextSidechainDifficulty_spec .bySorting
      [⟨30, 9⟩, ⟨20, 4⟩, ⟨10, 2⟩] 10 1 4 50 (by decide) (by decide) (by decide)
      (by decide)
  obtain ⟨difficulty, computed⟩ :
      ∃ difficulty,
        calculateNextSidechainDifficultyBy .bySorting
          [⟨30, 9⟩, ⟨20, 4⟩, ⟨10, 2⟩] 10 1 4 50 = .ok difficulty :=
    ⟨3, by decide⟩
  exact ⟨difficulty, computed, bounds difficulty computed⟩

end Retarget

end ZanoP2pool
