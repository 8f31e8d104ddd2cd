import Mathlib
import ZanoP2pool.ShareChainBranch
import ZanoP2pool.ShareValidation

namespace ZanoP2pool

open Foundation

/-!
# Retarget and validation do not throw

With usable parameters, a nonzero network difficulty and timestamps below `2 ^ 32`
the retarget always finds a difficulty, and a nonzero difficulty is read back from
its decimal text.
-/

section Decimal

/-- Reading more digits never lowers the value. -/
theorem le_ofDigitChars
    (digits : List Char)
    (value : Nat) :
    value ≤ Nat.ofDigitChars 10 digits value := by
  rw [Nat.ofDigitChars_eq_ofDigitChars_zero]
  have positive : 1 ≤ 10 ^ digits.length := Nat.one_le_pow _ _ (by omega)
  have scaled := Nat.mul_le_mul_right value positive
  omega

/-- Digits of a number that fits are read without an error. -/
theorem foldlM_parseDifficultyDigit
    {digits : List Char}
    {value : Nat}
    (decimal : ∀ digit ∈ digits, digit.isDigit = true)
    (fits : Nat.ofDigitChars 10 digits value < 2 ^ 128) :
    digits.foldlM parseDifficultyDigit value =
      .ok (Nat.ofDigitChars 10 digits value) := by
  induction digits generalizing value with
  | nil => rfl
  | cons digit rest inductionHypothesis =>
      obtain ⟨isDigit, others⟩ := List.forall_mem_cons.mp decimal
      have inRange : ¬ (digit < '0' ∨ digit > '9') := by
        rw [Char.isDigit, Bool.and_eq_true, decide_eq_true_eq,
          decide_eq_true_eq] at isDigit
        rw [not_or]
        exact ⟨not_lt.mpr isDigit.1, not_lt.mpr isDigit.2⟩
      rw [Nat.ofDigitChars_cons] at fits ⊢
      have below := le_ofDigitChars rest
        (10 * value + (digit.toNat - '0'.toNat))
      have step :
          parseDifficultyDigit value digit =
            .ok (10 * value + (digit.toNat - '0'.toNat)) := by
        unfold parseDifficultyDigit
        rw [if_neg inRange, mul_comm value 10]
        exact if_neg (by omega)
      rw [List.foldlM_cons, step]
      exact inductionHypothesis others fits

/-- A nonzero difficulty is read back from its decimal text. -/
theorem parseDifficulty_difficulty128ToDecimal
    {difficulty : Difficulty128}
    (nonzero : difficulty ≠ 0) :
    parseDifficulty (difficulty128ToDecimal difficulty) =
      .ok difficulty.toNat := by
  have value :
      Nat.ofDigitChars 10 (difficulty128ToDecimal difficulty) 0 =
        difficulty.toNat :=
    Nat.ofDigitChars_toDigits (by omega) (by omega)
  have read :
      (difficulty128ToDecimal difficulty).foldlM parseDifficultyDigit 0 =
        .ok difficulty.toNat := by
    rw [foldlM_parseDifficultyDigit, value]
    · intro digit member
      exact Nat.isDigit_of_mem_toDigits (by omega) (by omega) member
    · rw [value]
      exact difficulty.isLt
  have written : (difficulty128ToDecimal difficulty).isEmpty = false := by
    rw [List.isEmpty_eq_false_iff]
    exact Nat.toDigits_ne_nil
  have positive : difficulty.toNat ≠ 0 := by
    intro zero
    exact nonzero (BitVec.eq_of_toNat_eq zero)
  unfold parseDifficulty
  rw [read]
  simp [written, positive, bind, Except.bind, pure, Except.pure]

/-- A hash is compared with a nonzero difficulty without an error. -/
theorem hashMeetsDifficulty_ok
    {difficulty : Difficulty128}
    (nonzero : difficulty ≠ 0)
    (hash : Hash256) :
    hashMeetsDifficulty hash (difficulty128ToDecimal difficulty) =
      .ok (decide (hash.toNat ≤ (2 ^ 256 - 1) / difficulty.toNat)) := by
  unfold hashMeetsDifficulty difficultyToTarget
  rw [parseDifficulty_difficulty128ToDecimal nonzero]
  rfl

/-- With a total oracle a candidate is always classified. -/
theorem validateCandidate_ok
    {backend : Backend}
    {height : UInt64}
    {miningHeaderHash : Hash256}
    {nonce : UInt64}
    {shareDifficulty networkDifficulty : Difficulty128}
    {mode : ProgPowZContextMode}
    {pow : ProgPowZResult}
    (hashed :
      backend.progpowzHash height miningHeaderHash nonce mode = .ok pow)
    (shareNonzero : shareDifficulty ≠ 0)
    (networkNonzero : networkDifficulty ≠ 0) :
    ∃ validation,
      validateCandidate backend height miningHeaderHash nonce
          (difficulty128ToDecimal shareDifficulty)
          (difficulty128ToDecimal networkDifficulty) mode =
        .ok validation ∧
      validation.pow = pow ∧
      validation.meetsShareDifficulty =
        decide (pow.finalHash.toNat ≤
          (2 ^ 256 - 1) / shareDifficulty.toNat) ∧
      validation.meetsNetworkDifficulty =
        decide (pow.finalHash.toNat ≤
          (2 ^ 256 - 1) / networkDifficulty.toNat) := by
  unfold validateCandidate
  rw [hashed]
  simp only [bind, Except.bind, hashMeetsDifficulty_ok shareNonzero,
    hashMeetsDifficulty_ok networkNonzero, pure, Except.pure]
  exact ⟨_, rfl, rfl, rfl, rfl⟩

end Decimal

/-- A computation that succeeds on every element maps like a function. -/
theorem mapM_eq_ok_map
    {ε α β : Type}
    {items : List α}
    {compute : α → Except ε β}
    {value : α → β}
    (each : ∀ item ∈ items, compute item = .ok (value item)) :
    items.mapM compute = .ok (items.map value) := by
  induction items with
  | nil => rfl
  | cons item rest inductionHypothesis =>
      obtain ⟨here, others⟩ := List.forall_mem_cons.mp each
      rw [List.mapM_cons, here, inductionHypothesis others]
      rfl

section Timestamps

variable {samples : List SidechainDifficultySample}

/-- The scan for the least timestamp, from any starting value. -/
theorem foldl_oldest
    (samples : List SidechainDifficultySample)
    (start : UInt64) :
    let oldest := samples.foldl
      (fun oldest sample =>
        if sample.timestamp < oldest then sample.timestamp else oldest) start
    oldest ≤ start ∧ (∀ sample ∈ samples, oldest ≤ sample.timestamp) ∧
      (oldest = start ∨ ∃ sample ∈ samples, oldest = sample.timestamp) := by
  induction samples generalizing start with
  | nil => exact ⟨UInt64.le_refl _, by simp, .inl rfl⟩
  | cons sample rest inductionHypothesis =>
      simp only [List.foldl_cons]
      obtain ⟨below, least, reached⟩ := inductionHypothesis
        (if sample.timestamp < start then sample.timestamp else start)
      by_cases lower : sample.timestamp < start
      · rw [if_pos lower] at below least reached ⊢
        refine ⟨UInt64.le_trans below (UInt64.le_of_lt lower), ?_, .inr ?_⟩
        · rw [List.forall_mem_cons]
          exact ⟨below, least⟩
        · rcases reached with same | ⟨other, member, same⟩
          · exact ⟨sample, List.mem_cons_self, same⟩
          · exact ⟨other, List.mem_cons_of_mem _ member, same⟩
      · rw [if_neg lower] at below least reached ⊢
        refine ⟨below, ?_, reached.imp_right ?_⟩
        · rw [List.forall_mem_cons]
          exact ⟨UInt64.le_trans below (UInt64.not_lt.mp lower), least⟩
        · rintro ⟨other, member, same⟩
          exact ⟨other, List.mem_cons_of_mem _ member, same⟩

theorem oldestTimestamp_le
    {sample : SidechainDifficultySample}
    (member : sample ∈ samples) :
    oldestTimestamp samples ≤ sample.timestamp :=
  (foldl_oldest samples _).2.1 sample member

/-- Offsets of timestamps below `2 ^ 32` fit. -/
theorem timestampDelta_ok
    (early : ∀ sample ∈ samples, sample.timestamp.toNat < 2 ^ 32)
    {sample : SidechainDifficultySample}
    (member : sample ∈ samples) :
    timestampDelta (oldestTimestamp samples) sample =
      .ok (sample.timestamp - oldestTimestamp samples) := by
  have below := UInt64.le_iff_toNat_le.mp (oldestTimestamp_le member)
  have bound := early sample member
  unfold timestampDelta
  refine if_neg ?_
  rw [gt_iff_lt, UInt64.lt_iff_toNat_lt,
    UInt64.toNat_sub_of_le _ _ (oldestTimestamp_le member)]
  simp only [UInt64.toNat_ofNat', Nat.reducePow, Nat.reduceSub]
  omega

end Timestamps

/-- The retained band of a nonempty sample list is not empty. -/
theorem workRange_isSome
    {samples : List SidechainDifficultySample}
    (nonempty : samples ≠ []) :
    ∃ range, workRange samples = some range := by
  cases samples with
  | nil => exact absurd rfl nonempty
  | cons sample rest => exact ⟨_, rfl⟩

/-- The two ranks of the retained band are in order and inside the list. -/
theorem retainedRanks
    {count : Nat}
    (positive : 0 < count) :
    (count + 9) / 10 - 1 ≤ count - (count + 9) / 10 ∧
      count - (count + 9) / 10 < count := by
  omega

theorem intToDifficulty128_ok
    {value : Nat}
    (positive : value ≠ 0)
    (fits : value < 2 ^ 128) :
    intToDifficulty128 value = .ok (BitVec.ofNat 128 value) := by
  unfold intToDifficulty128
  rw [if_neg positive, if_neg (by omega)]

/-- Offsets ranked by size, read at two ranks in order, bound a sample. -/
theorem retained_nonempty
    {samples : List SidechainDifficultySample}
    {first second : Nat}
    (ordered : first ≤ second)
    (inside : second < samples.length) :
    let oldest := oldestTimestamp samples
    let ranked :=
      (samples.map fun sample => sample.timestamp - oldest).insertionSort
        (· ≤ ·)
    (samples.filter fun sample =>
      decide (oldest + ranked.getD first 0 ≤ sample.timestamp) &&
        decide (sample.timestamp ≤ oldest + ranked.getD second 0)) ≠ [] := by
  intro oldest ranked
  have length : ranked.length = samples.length := by
    simp only [ranked, List.length_insertionSort, List.length_map]
  have sorted : ranked.Pairwise (· ≤ ·) :=
    List.pairwise_insertionSort (· ≤ ·) _
  -- an offset of rank k belongs to a sample
  have owner :
      ∀ rank, rank < samples.length →
        ∃ sample ∈ samples,
          ranked.getD rank 0 = sample.timestamp - oldest := by
    intro rank bound
    have member : ranked.getD rank 0 ∈ ranked := by
      rw [List.getD_eq_getElem _ _ (by omega)]
      exact List.getElem_mem _
    have original := (List.perm_insertionSort (· ≤ ·) _).mem_iff.mp member
    obtain ⟨sample, inSamples, same⟩ := List.mem_map.mp original
    exact ⟨sample, inSamples, same.symm⟩
  obtain ⟨lower, lowerIn, lowerRank⟩ := owner first (by omega)
  obtain ⟨upper, upperIn, upperRank⟩ := owner second inside
  have offsets : ranked.getD first 0 ≤ ranked.getD second 0 := by
    rw [List.getD_eq_getElem _ _ (by omega),
      List.getD_eq_getElem _ _ (by omega)]
    rcases Nat.eq_or_lt_of_le ordered with same | below
    · subst same
      exact UInt64.le_refl _
    · exact List.pairwise_iff_getElem.mp sorted _ _ _ _ below
  rw [lowerRank, upperRank] at offsets ⊢
  have lowerOldest := oldestTimestamp_le lowerIn
  have upperOldest := oldestTimestamp_le upperIn
  have between : lower.timestamp ≤ upper.timestamp := by
    rw [UInt64.le_iff_toNat_le, UInt64.toNat_sub_of_le _ _ lowerOldest,
      UInt64.toNat_sub_of_le _ _ upperOldest] at offsets
    rw [UInt64.le_iff_toNat_le] at lowerOldest upperOldest ⊢
    omega
  apply List.ne_nil_of_mem (a := lower)
  rw [List.mem_filter, Bool.and_eq_true, decide_eq_true_eq,
    decide_eq_true_eq]
  refine ⟨lowerIn, ?_, ?_⟩
  · rw [add_sub_cancel]
    exact UInt64.le_refl _
  · rw [add_sub_cancel]
    exact between

/-- A policy whose retarget is defined. -/
structure UsablePolicy (policy : DifficultyPolicy) : Prop where
  target : policy.targetShareSeconds ≠ 0
  minimum : policy.minimumShareDifficulty ≠ 0
  window : ¬ policy.difficultyWindowShares < 2

/-- The retarget finds a difficulty for samples below `2 ^ 32`. -/
theorem calculateNextSidechainDifficulty_ok
    {policy : DifficultyPolicy}
    (usable : UsablePolicy policy)
    {history : List SidechainDifficultySample}
    (early : ∀ sample ∈ history, sample.timestamp.toNat < 2 ^ 32)
    {networkDifficulty : Difficulty128}
    (nonzero : networkDifficulty ≠ 0) :
    ∃ difficulty,
      calculateNextSidechainDifficulty history policy.targetShareSeconds
          policy.minimumShareDifficulty policy.difficultyWindowShares
          networkDifficulty =
        .ok difficulty := by
  have networkPositive : networkDifficulty.toNat ≠ 0 := by
    intro zero
    exact nonzero (BitVec.eq_of_toNat_eq zero)
  have minimumPositive : policy.minimumShareDifficulty.toNat ≠ 0 := by
    intro zero
    exact usable.minimum (UInt64.toNat_inj.mp zero)
  have bounded := networkDifficulty.isLt
  have parameters :
      ¬ (policy.targetShareSeconds = 0 ∨ policy.minimumShareDifficulty = 0 ∨
        policy.difficultyWindowShares < 2) := by
    rw [not_or, not_or]
    exact ⟨usable.target, usable.minimum, usable.window⟩
  unfold calculateNextSidechainDifficulty
  rw [if_neg parameters]
  simp only [difficulty128IsZero_eq_false.mpr nonzero, Bool.false_eq_true,
    if_false]
  by_cases empty : history = []
  · subst empty
    simp only [List.isEmpty_nil, if_true]
    rw [intToDifficulty128_ok (by omega) (by omega)]
    exact ⟨_, rfl⟩
  · have window : 2 ≤ policy.difficultyWindowShares.toNat := by
      have notBelow := usable.window
      rw [UInt64.lt_iff_toNat_lt] at notBelow
      simpa [Nat.succ_le_iff] using notBelow
    have long : 0 < history.length := List.length_pos_iff.mpr empty
    have count : 0 < min history.length policy.difficultyWindowShares.toNat := by
      omega
    generalize counted :
      min history.length policy.difficultyWindowShares.toNat = sampleCount
      at count
    have sampleLength : (history.take sampleCount).length = sampleCount := by
      rw [List.length_take]
      omega
    have sampleEarly :
        ∀ sample ∈ history.take sampleCount,
          sample.timestamp.toNat < 2 ^ 32 :=
      fun sample member => early sample (List.mem_of_mem_take member)
    generalize history.take sampleCount = samples at sampleLength sampleEarly
    have deltas :
        samples.mapM (timestampDelta (oldestTimestamp samples)) =
          .ok (samples.map fun sample =>
            sample.timestamp - oldestTimestamp samples) :=
      mapM_eq_ok_map fun _ member => timestampDelta_ok sampleEarly member
    obtain ⟨ordered, inside⟩ := retainedRanks count
    have retained :=
      @retained_nonempty samples _ _ ordered (by omega)
    obtain ⟨⟨minimumWork, maximumWork⟩, ranged⟩ := workRange_isSome retained
    simp only [List.isEmpty_iff, empty, if_false, deltas, bind, Except.bind,
      ranged]
    exact ⟨_, intToDifficulty128_ok (by omega) (by omega)⟩

end ZanoP2pool
