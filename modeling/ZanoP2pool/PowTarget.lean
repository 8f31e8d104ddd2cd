import ZanoP2pool.RetargetTotal
import ZanoP2pool.ShareChainInvariants

namespace ZanoP2pool

open Foundation

/-!
# Difficulties and targets in machine words

The source converts difficulties between byte arrays, decimal text and words of
128 and 256 bits, and compares hashes with targets as words.  Here the
conversions are written out in words that wrap around, and shown to be the exact
ones that the share chain is modelled with.
-/

/-- Read big-endian bytes into a word, shifting it left byte by byte. -/
def wordOfBytes (width : Nat) (bytes : List UInt8) : BitVec width :=
  bytes.foldl
    (fun value (byte : UInt8) => (value <<< 8) ||| BitVec.ofNat width byte.toNat) 0

/-- Write the low bytes of a word, shifting it right byte by byte. -/
def bytesOfWord {width : Nat} : Nat → BitVec width → List UInt8
  | 0, _ => []
  | count + 1, value =>
      bytesOfWord count (value >>> 8) ++ [UInt8.ofNat (value &&& 0xff).toNat]

/-- One digit of the decimal readers, which accumulate in 256 bits. -/
def readDecimalDigit
    (outOfRange : String)
    (value : BitVec 256)
    (digit : Char) :
    Except Exception (BitVec 256) :=
  if digit < '0' ∨ digit > '9' then
    .error (.invalidArgument "difficulty must contain decimal digits only")
  else
    let next := value * 10 + BitVec.ofNat 256 (digit.toNat - '0'.toNat)
    if next > (BitVec.allOnes 128).setWidth 256 then
      .error (.outOfRange outOfRange)
    else
      .ok next

/-- A positive decimal number of at most 128 bits. -/
def readDecimal
    (outOfRange : String)
    (text : List Char) :
    Except Exception (BitVec 128) := do
  if text.isEmpty then
    throw (.invalidArgument "difficulty is empty")
  else
    let value ← text.foldlM (readDecimalDigit outOfRange) 0
    if value = 0 then
      throw (.invalidArgument "difficulty must be greater than zero")
    else
      return value.setWidth 128

def parseUint128Decimal : List Char → Except Exception (BitVec 128) :=
  readDecimal "difficulty exceeds uint128 range"

def difficulty128FromDecimal
    (decimal : List Char) :
    Except Exception Difficulty128 := do
  let value ← parseUint128Decimal decimal
  return BitVec.ofNat 128 (ofBigEndian (bytesOfWord 16 value))

namespace PowTarget

def parseDifficulty : List Char → Except Exception (BitVec 128) :=
  readDecimal "difficulty exceeds Zano uint128 range"

/-- The target of a difficulty, as big-endian bytes. -/
def difficultyToTarget
    (difficultyDecimal : List Char) :
    Except Exception (List UInt8) := do
  let difficulty ← parseDifficulty difficultyDecimal
  return bytesOfWord 32 (BitVec.allOnes 256 / difficulty.setWidth 256)

def hashMeetsTarget (hash target : List UInt8) : Bool :=
  wordOfBytes 256 hash ≤ wordOfBytes 256 target

def hashMeetsDifficulty
    (hash : Hash256)
    (difficultyDecimal : List Char) :
    Except Exception Bool := do
  let target ← difficultyToTarget difficultyDecimal
  return hashMeetsTarget (hashBytes hash) target

/-- The decimal text of a difficulty, read from its bytes. -/
def difficulty128ToDecimal (difficulty : Difficulty128) : List Char :=
  Nat.toDigits 10 (wordOfBytes 128 (difficultyBytes difficulty)).toNat

end PowTarget

def classifyPowHash
    (powHash : Hash256)
    (shareDifficulty networkDifficulty : List Char) :
    Except Exception CandidateClassification := do
  if ← hashMeetsDifficulty powHash networkDifficulty then
    return .block
  else if ← hashMeetsDifficulty powHash shareDifficulty then
    return .share
  else
    return .invalid

section Words

variable {width : Nat}

/-- Shifting in a byte multiplies and adds, within the width. -/
theorem toNat_shiftByte
    (value : BitVec width)
    (byte : UInt8) :
    ((value <<< 8) ||| BitVec.ofNat width byte.toNat).toNat =
      (value.toNat * 256 + byte.toNat) % 2 ^ width := by
  have disjoint :
      value.toNat <<< 8 + byte.toNat = value.toNat <<< 8 ||| byte.toNat :=
    Nat.shiftLeft_add_eq_or_of_lt byte.toNat_lt value.toNat
  rw [BitVec.toNat_or, BitVec.toNat_shiftLeft, BitVec.toNat_ofNat,
    ← Nat.or_mod_two_pow, ← disjoint, Nat.shiftLeft_eq]

/-- Reading bytes into a word keeps the bits that fit. -/
theorem toNat_wordOfBytes
    (bytes : List UInt8) :
    (wordOfBytes width bytes).toNat = ofBigEndian bytes % 2 ^ width := by
  have fold :
      ∀ (value : BitVec width) (start : Nat),
        value.toNat = start % 2 ^ width →
          (bytes.foldl
            (fun (value : BitVec width) (byte : UInt8) =>
              (value <<< 8) ||| BitVec.ofNat width byte.toNat) value).toNat =
            bytes.foldl (fun value byte => value * 256 + byte.toNat) start %
              2 ^ width := by
    induction bytes with
    | nil => exact fun _ _ same => same
    | cons byte rest inductionHypothesis =>
        intro value start same
        refine inductionHypothesis _ _ ?_
        rw [toNat_shiftByte, same, Nat.add_mod, Nat.mod_mul_mod,
          ← Nat.add_mod]
  exact fold 0 0 (by simp)

/-- The last byte of a big-endian encoding is the low byte. -/
theorem bigEndian_succ
    (count value : Nat) :
    bigEndian (count + 1) value =
      bigEndian count (value / 256) ++ [UInt8.ofNat value] := by
  induction count with
  | zero => simp [bigEndian]
  | succ count inductionHypothesis =>
      rw [bigEndian, inductionHypothesis, bigEndian, List.cons_append,
        Nat.div_div_eq_div_mul, pow_succ']

/-- Writing the low bytes of a word is its big-endian encoding. -/
theorem bytesOfWord_eq
    (wide : 8 ≤ width)
    (count : Nat)
    (value : BitVec width) :
    bytesOfWord count value = bigEndian count value.toNat := by
  have low (word : BitVec width) :
      UInt8.ofNat (word &&& 0xff).toNat = UInt8.ofNat word.toNat := by
    have mask : (0xff : BitVec width).toNat = 2 ^ 8 - 1 := by
      change (BitVec.ofNat width 255).toNat = 255
      rw [BitVec.toNat_ofNat]
      exact Nat.mod_eq_of_lt (lt_of_lt_of_le (by norm_num)
        (Nat.pow_le_pow_right (by omega) wide))
    rw [BitVec.toNat_and, mask, Nat.and_two_pow_sub_one_eq_mod]
    apply UInt8.toNat_inj.mp
    simp [UInt8.toNat_ofNat']
  induction count generalizing value with
  | zero => rfl
  | succ count inductionHypothesis =>
      rw [bytesOfWord, inductionHypothesis, low, bigEndian_succ,
        BitVec.toNat_ushiftRight, Nat.shiftRight_eq_div_pow]

end Words

section Decimal

variable {outOfRange : String} {text : List Char}

/-- The characters between zero and nine are the decimal digits. -/
theorem outsideDigits_iff
    {digit : Char} :
    digit < '0' ∨ digit > '9' ↔ digit.isDigit = false := by
  rw [← Bool.not_eq_true, Char.isDigit, Bool.and_eq_true, decide_eq_true_eq,
    decide_eq_true_eq, not_and_or]
  exact or_congr not_le.symm not_le.symm

/-- Appending a digit does not wrap around. -/
theorem toNat_appendDigit
    {value : BitVec 256}
    {digit : Char}
    (small : value.toNat < 2 ^ 128)
    (decimal : digit.isDigit = true) :
    (value * 10 + BitVec.ofNat 256 (digit.toNat - '0'.toNat)).toNat =
      10 * value.toNat + (digit.toNat - '0'.toNat) := by
  have inside : ¬ (digit < '0' ∨ digit > '9') := by
    rw [outsideDigits_iff, decimal]
    simp
  have low : digit.toNat - '0'.toNat ≤ 9 := by
    have below : digit ≤ '9' := not_lt.mp (not_or.mp inside).2
    have bound : digit.toNat ≤ '9'.toNat := below
    have nine : '9'.toNat = 57 := rfl
    have zero : '0'.toNat = 48 := rfl
    omega
  have ten : (10 : BitVec 256).toNat = 10 := rfl
  rw [BitVec.toNat_add, BitVec.toNat_mul, BitVec.toNat_ofNat, ten,
    Nat.mod_eq_of_lt (a := value.toNat * 10) (by omega),
    Nat.mod_eq_of_lt (a := digit.toNat - '0'.toNat) (by omega),
    Nat.mod_eq_of_lt (by omega)]
  omega

/-- The bound of the readers is the greatest 128-bit word. -/
theorem exceedsRange_iff
    {value : BitVec 256} :
    value > (BitVec.allOnes 128).setWidth 256 ↔ value.toNat ≥ 2 ^ 128 := by
  have limit :
      ((BitVec.allOnes 128).setWidth 256).toNat = 2 ^ 128 - 1 := by
    decide
  rw [gt_iff_lt, BitVec.lt_def, limit]
  omega

/-- One digit is read as in the exact reader. -/
theorem readDecimalDigit_map
    {value : BitVec 256}
    {digit : Char}
    (small : value.toNat < 2 ^ 128) :
    (readDecimalDigit "difficulty exceeds Zano uint128 range" value
        digit).map BitVec.toNat =
      parseDifficultyDigit value.toNat digit := by
  unfold readDecimalDigit parseDifficultyDigit
  by_cases outside : digit < '0' ∨ digit > '9'
  · rw [if_pos outside, if_pos outside]
    rfl
  · have decimal : digit.isDigit = true := by
      rwa [outsideDigits_iff, Bool.not_eq_false] at outside
    have exact := toNat_appendDigit small decimal
    rw [if_neg outside, if_neg outside]
    simp only [exceedsRange_iff, exact, mul_comm value.toNat 10]
    by_cases large :
        10 * value.toNat + (digit.toNat - '0'.toNat) ≥ 2 ^ 128
    · rw [if_pos large, if_pos large]
      rfl
    · rw [if_neg large, if_neg large]
      exact congrArg Except.ok exact

/-- What one digit adds, when it is accepted. -/
theorem readDecimalDigit_eq_ok
    {value next : BitVec 256}
    {digit : Char}
    (small : value.toNat < 2 ^ 128) :
    readDecimalDigit outOfRange value digit = .ok next ↔
      digit.isDigit = true ∧
        next.toNat = 10 * value.toNat + (digit.toNat - '0'.toNat) ∧
        next.toNat < 2 ^ 128 := by
  unfold readDecimalDigit
  cases decimal : digit.isDigit with
  | false =>
      rw [if_pos (outsideDigits_iff.mpr decimal)]
      simp
  | true =>
      have inside : ¬ (digit < '0' ∨ digit > '9') := by
        rw [outsideDigits_iff, decimal]
        simp
      have exact := toNat_appendDigit small decimal
      rw [if_neg inside]
      simp only [exceedsRange_iff, exact]
      by_cases large :
          10 * value.toNat + (digit.toNat - '0'.toNat) ≥ 2 ^ 128
      · rw [if_pos large]
        simp only [true_and, reduceCtorEq, false_iff, not_and, not_lt]
        intro same
        omega
      · rw [if_neg large]
        simp only [Except.ok.injEq, true_and]
        constructor
        · rintro rfl
          exact ⟨exact, by omega⟩
        · rintro ⟨same, _⟩
          apply BitVec.eq_of_toNat_eq
          rw [exact, same]

/-- A text is read when it has only digits and its value fits. -/
theorem foldlM_readDecimalDigit
    {value final : BitVec 256}
    (small : value.toNat < 2 ^ 128) :
    text.foldlM (readDecimalDigit outOfRange) value = .ok final ↔
      (∀ digit ∈ text, digit.isDigit = true) ∧
        final.toNat = Nat.ofDigitChars 10 text value.toNat ∧
        final.toNat < 2 ^ 128 := by
  induction text generalizing value with
  | nil =>
      simp only [List.foldlM_nil, List.not_mem_nil, false_implies, implies_true,
        true_and, Nat.ofDigitChars_nil]
      constructor
      · rintro ⟨⟩
        exact ⟨rfl, small⟩
      · rintro ⟨same, _⟩
        rw [BitVec.eq_of_toNat_eq same]
        rfl
  | cons digit rest inductionHypothesis =>
      rw [List.foldlM_cons, List.forall_mem_cons, Nat.ofDigitChars_cons]
      constructor
      · intro read
        obtain ⟨next, first, later⟩ := except_bind_eq_ok.mp read
        obtain ⟨decimal, stepped, fits⟩ :=
          (readDecimalDigit_eq_ok small).mp first
        obtain ⟨others, finished, bounded⟩ :=
          (inductionHypothesis fits).mp later
        rw [stepped] at finished
        exact ⟨⟨decimal, others⟩, finished, bounded⟩
      · rintro ⟨⟨decimal, others⟩, finished, bounded⟩
        have below := le_ofDigitChars rest
          (10 * value.toNat + (digit.toNat - '0'.toNat))
        let next : BitVec 256 :=
          BitVec.ofNat 256 (10 * value.toNat + (digit.toNat - '0'.toNat))
        have stepped :
            next.toNat = 10 * value.toNat + (digit.toNat - '0'.toNat) := by
          rw [BitVec.toNat_ofNat]
          exact Nat.mod_eq_of_lt (by omega)
        have fits : next.toNat < 2 ^ 128 := by omega
        refine except_bind_eq_ok.mpr ⟨next,
          (readDecimalDigit_eq_ok small).mpr ⟨decimal, stepped, fits⟩,
          (inductionHypothesis fits).mpr ⟨others, ?_, bounded⟩⟩
        rw [stepped]
        exact finished

/-- What the decimal readers accept, with its value. -/
theorem readDecimal_eq_ok
    {value : BitVec 128} :
    readDecimal outOfRange text = .ok value ↔
      (∀ digit ∈ text, digit.isDigit = true) ∧
        value.toNat = Nat.ofDigitChars 10 text 0 ∧
        1 ≤ value.toNat := by
  unfold readDecimal
  cases text with
  | nil =>
      simp only [List.isEmpty_nil, if_true, Nat.ofDigitChars_nil]
      refine iff_of_false (fun thrown => by cases thrown) ?_
      omega
  | cons digit rest =>
  rw [if_neg (by simp)]
  constructor
  · intro read
    obtain ⟨wide, folded, read⟩ := except_bind_eq_ok.mp read
    obtain ⟨decimal, finished, bounded⟩ :=
      (foldlM_readDecimalDigit (by decide)).mp folded
    by_cases zero : wide = 0
    · rw [if_pos zero] at read
      cases read
    · rw [if_neg zero] at read
      cases read
      have narrow : (wide.setWidth 128).toNat = wide.toNat := by
        rw [BitVec.toNat_setWidth, Nat.mod_eq_of_lt bounded]
      refine ⟨decimal, narrow.trans finished, ?_⟩
      rw [narrow]
      have positive : wide.toNat ≠ 0 := fun none =>
        zero (BitVec.eq_of_toNat_eq none)
      omega
  · rintro ⟨decimal, finished, positive⟩
    have wide : (value.setWidth 256).toNat = value.toNat := by
      rw [BitVec.toNat_setWidth]
      exact Nat.mod_eq_of_lt (lt_trans value.isLt (by norm_num))
    refine except_bind_eq_ok.mpr ⟨value.setWidth 256,
      (foldlM_readDecimalDigit (by decide)).mpr
        ⟨decimal, wide.trans finished, by rw [wide]; exact value.isLt⟩, ?_⟩
    have nonzero : value.setWidth 256 ≠ 0 := by
      intro zero
      have none := congrArg BitVec.toNat zero
      rw [wide] at none
      exact absurd none (by change value.toNat ≠ 0; omega)
    rw [if_neg nonzero, BitVec.setWidth_setWidth_of_le _ (by omega),
      BitVec.setWidth_eq]
    rfl

/-- The digits are read as by the exact parser. -/
theorem foldlM_readDecimalDigit_map
    {value : BitVec 256}
    (small : value.toNat < 2 ^ 128) :
    (text.foldlM (readDecimalDigit "difficulty exceeds Zano uint128 range")
        value).map BitVec.toNat =
      text.foldlM parseDifficultyDigit value.toNat := by
  induction text generalizing value with
  | nil => rfl
  | cons digit rest inductionHypothesis =>
      rw [List.foldlM_cons, List.foldlM_cons, ← readDecimalDigit_map small]
      cases read : readDecimalDigit "difficulty exceeds Zano uint128 range"
          value digit with
      | error thrown => rfl
      | ok next =>
          obtain ⟨_, _, fits⟩ := (readDecimalDigit_eq_ok small).mp read
          exact inductionHypothesis fits

/-- The target parser reads what the exact parser reads. -/
theorem parseDifficulty_map :
    (PowTarget.parseDifficulty text).map BitVec.toNat =
      parseDifficulty text := by
  have folded := @foldlM_readDecimalDigit_map text 0 (by decide)
  unfold PowTarget.parseDifficulty readDecimal parseDifficulty
  cases text.isEmpty with
  | true => rfl
  | false =>
      simp only [Bool.false_eq_true, if_false]
      have zero : (0 : BitVec 256).toNat = 0 := rfl
      rw [zero] at folded
      rw [← folded]
      cases read : text.foldlM
          (readDecimalDigit "difficulty exceeds Zano uint128 range") 0 with
      | error thrown => rfl
      | ok value =>
          obtain ⟨_, _, fits⟩ := (foldlM_readDecimalDigit (by decide)).mp read
          have same : value = 0 ↔ value.toNat = 0 :=
            ⟨fun none => by rw [none]; rfl,
              fun none => BitVec.eq_of_toNat_eq none⟩
          simp only [bind, Except.bind, Except.map, same]
          by_cases none : value.toNat = 0
          · simp [none]
            rfl
          · simp only [if_neg none, pure, Except.pure]
            rw [BitVec.toNat_setWidth, Nat.mod_eq_of_lt fits]

/-- A nonzero difficulty is read back from its decimal text. -/
theorem readDecimal_toDigits
    {difficulty : Difficulty128}
    (nonzero : difficulty ≠ 0) :
    readDecimal outOfRange (difficulty128ToDecimal difficulty) =
      .ok difficulty := by
  refine readDecimal_eq_ok.mpr ⟨?_, ?_, ?_⟩
  · intro digit member
    exact Nat.isDigit_of_mem_toDigits (by omega) (by omega) member
  · exact (Nat.ofDigitChars_toDigits (by omega) (by omega)).symm
  · have positive : difficulty.toNat ≠ 0 := fun zero =>
      nonzero (BitVec.eq_of_toNat_eq zero)
    omega

end Decimal

section Targets

/-- A word is read back from its bytes. -/
theorem wordOfBytes_bigEndian
    {width count : Nat}
    (word : BitVec width)
    (wide : width = 8 * count) :
    wordOfBytes width (bigEndian count word.toNat) = word := by
  apply BitVec.eq_of_toNat_eq
  have fits : word.toNat < 256 ^ count := by
    have same : (2 : Nat) ^ width = 256 ^ count := by
      rw [wide, pow_mul]
      norm_num
    rw [← same]
    exact word.isLt
  rw [toNat_wordOfBytes, ofBigEndian_bigEndian_of_lt fits,
    Nat.mod_eq_of_lt word.isLt]

/-- The decimal text of a difficulty does not depend on the byte order. -/
theorem PowTarget.difficulty128ToDecimal_eq
    (difficulty : Difficulty128) :
    PowTarget.difficulty128ToDecimal difficulty =
      ZanoP2pool.difficulty128ToDecimal difficulty := by
  unfold PowTarget.difficulty128ToDecimal difficultyBytes
  rw [wordOfBytes_bigEndian difficulty (by norm_num)]
  rfl

/-- Bytes are compared by the words they hold. -/
theorem PowTarget.hashMeetsTarget_eq
    {hash target : List UInt8}
    {hashWord targetWord : BitVec 256}
    (hashRead : wordOfBytes 256 hash = hashWord)
    (targetRead : wordOfBytes 256 target = targetWord) :
    PowTarget.hashMeetsTarget hash target =
      decide (hashWord.toNat ≤ targetWord.toNat) := by
  unfold PowTarget.hashMeetsTarget
  rw [hashRead, targetRead]
  simp only [BitVec.le_def]

/-- The comparison in words is the exact one. -/
theorem PowTarget.hashMeetsDifficulty_eq
    (hash : Hash256)
    (text : List Char) :
    PowTarget.hashMeetsDifficulty hash text =
      ZanoP2pool.hashMeetsDifficulty hash text := by
  unfold PowTarget.hashMeetsDifficulty PowTarget.difficultyToTarget
    ZanoP2pool.hashMeetsDifficulty ZanoP2pool.difficultyToTarget
  rw [← parseDifficulty_map]
  cases read : PowTarget.parseDifficulty text with
  | error thrown => rfl
  | ok difficulty =>
      have target :
          (BitVec.allOnes 256 / difficulty.setWidth 256).toNat =
            (2 ^ 256 - 1) / difficulty.toNat := by
        rw [BitVec.toNat_udiv, BitVec.toNat_allOnes, BitVec.toNat_setWidth,
          Nat.mod_eq_of_lt (lt_trans difficulty.isLt (by norm_num))]
      simp only [bind, Except.bind, Except.map, pure, Except.pure]
      generalize BitVec.allOnes 256 / difficulty.setWidth 256 = word at target
      have hashRead : wordOfBytes 256 (hashBytes hash) = hash :=
        wordOfBytes_bigEndian hash rfl
      have wordRead : wordOfBytes 256 (bytesOfWord 32 word) = word := by
        rw [bytesOfWord_eq (by decide)]
        exact wordOfBytes_bigEndian word rfl
      rw [PowTarget.hashMeetsTarget_eq hashRead wordRead, target]

/-- A hash is below the target exactly when its product with the difficulty fits. -/
theorem le_target_iff
    {hash divisor : Nat}
    (positive : divisor ≠ 0) :
    hash ≤ (2 ^ 256 - 1) / divisor ↔ hash * divisor < 2 ^ 256 := by
  rw [Nat.le_div_iff_mul_le (Nat.pos_of_ne_zero positive)]
  have full : 0 < 2 ^ 256 := Nat.two_pow_pos 256
  generalize 2 ^ 256 = bound at full ⊢
  omega

/-- A nonzero difficulty is a positive number. -/
theorem Difficulty128.toNat_ne_zero
    {difficulty : Difficulty128}
    (nonzero : difficulty ≠ 0) :
    difficulty.toNat ≠ 0 :=
  fun zero => nonzero (BitVec.eq_of_toNat_eq zero)

/-- The comparison with a difficulty is the comparison of the exact product. -/
theorem hashMeetsDifficulty_product
    {difficulty : Difficulty128}
    (nonzero : difficulty ≠ 0)
    (hash : Hash256) :
    hashMeetsDifficulty hash (difficulty128ToDecimal difficulty) =
      .ok (decide (hash.toNat * difficulty.toNat < 2 ^ 256)) := by
  rw [hashMeetsDifficulty_ok nonzero]
  simp only [le_target_iff (Difficulty128.toNat_ne_zero nonzero)]

/-- Both decimal readers take the value of the text. -/
theorem difficulty128FromDecimal_eq
    (text : List Char) :
    difficulty128FromDecimal text =
      parseUint128Decimal text := by
  unfold difficulty128FromDecimal
  cases read : parseUint128Decimal text with
  | error thrown => rfl
  | ok value =>
      have fits : value.toNat < 256 ^ 16 := lt_of_lt_of_eq value.isLt (by norm_num)
      have kept : BitVec.ofNat 128 (ofBigEndian (bytesOfWord 16 value)) = value := by
        rw [bytesOfWord_eq (by decide), ofBigEndian_bigEndian_of_lt fits,
          BitVec.ofNat_toNat, BitVec.setWidth_eq]
      exact congrArg Except.ok kept

/-- A decimal reader accepts digits whose value is positive and fits. -/
theorem readDecimal_accepts_iff
    {outOfRange : String}
    {text : List Char} :
    (∃ value, readDecimal outOfRange text = .ok value) ↔
      (∀ digit ∈ text, digit.isDigit = true) ∧
        1 ≤ Nat.ofDigitChars 10 text 0 ∧
        Nat.ofDigitChars 10 text 0 ≤ 2 ^ 128 - 1 := by
  constructor
  · rintro ⟨value, read⟩
    obtain ⟨decimal, same, positive⟩ := readDecimal_eq_ok.mp read
    have fits := value.isLt
    rw [same] at positive fits
    exact ⟨decimal, positive, by omega⟩
  · rintro ⟨decimal, positive, fits⟩
    have same :
        (BitVec.ofNat 128 (Nat.ofDigitChars 10 text 0)).toNat =
          Nat.ofDigitChars 10 text 0 := by
      rw [BitVec.toNat_ofNat]
      exact Nat.mod_eq_of_lt (by omega)
    exact ⟨_, readDecimal_eq_ok.mpr ⟨decimal, same, by omega⟩⟩

end Targets

section Candidates

variable
  {backend : Backend}
  {height nonce : UInt64}
  {miningHeaderHash : Hash256}
  {mode : ProgPowZContextMode}

/-- A validated candidate has the class of its hash, and its flags are ordered. -/
theorem validateCandidate_classified
    {share network : Difficulty128}
    (nonzero : share ≠ 0)
    (below : share ≤ network)
    {validation : CandidateValidation}
    (validated :
      validateCandidate backend height miningHeaderHash nonce
          (difficulty128ToDecimal share) (difficulty128ToDecimal network)
          mode = .ok validation) :
    (validation.meetsNetworkDifficulty = true →
      validation.meetsShareDifficulty = true) ∧
      classifyPowHash validation.pow.finalHash (difficulty128ToDecimal share)
          (difficulty128ToDecimal network) =
        .ok validation.classification := by
  have ordered : share.toNat ≤ network.toNat := below
  have networkNonzero : network ≠ 0 := by
    rintro rfl
    exact Difficulty128.toNat_ne_zero nonzero (Nat.le_zero.mp ordered)
  unfold validateCandidate at validated
  obtain ⟨pow, _, validated⟩ := except_bind_eq_ok.mp validated
  rw [hashMeetsDifficulty_product nonzero,
    hashMeetsDifficulty_product networkNonzero] at validated
  cases validated
  constructor
  · simp only [decide_eq_true_eq]
    intro meets
    exact lt_of_le_of_lt (Nat.mul_le_mul_left _ ordered) meets
  · unfold classifyPowHash
    rw [hashMeetsDifficulty_product nonzero,
      hashMeetsDifficulty_product networkNonzero]
    simp only [bind, Except.bind, pure, Except.pure]
    by_cases block : decide (pow.finalHash.toNat * network.toNat < 2 ^ 256) = true
    · rw [if_pos block, if_pos block]
    · rw [if_neg block, if_neg block]
      exact (apply_ite Except.ok _ _ _).symm

end Candidates

namespace ShareChain

variable {backend : Backend}

/-- Every validation the chain stores is consistent. -/
structure ConsistentWork (chain : ShareChain) : Prop where
  connected :
    ∀ ⦃id : ShareId⦄ ⦃entry : ConnectedShare⦄,
      chain.connected[id]? = some entry →
        ConsistentPow entry.powValidation
  orphans :
    ∀ ⦃id : ShareId⦄ ⦃orphan : OrphanShare⦄,
      chain.orphans[id]? = some orphan →
        ConsistentPow orphan.powValidation

/-- A fresh chain stores no validation. -/
theorem Fresh.consistentWork
    {chain : ShareChain}
    (fresh : Fresh backend chain) :
    ConsistentWork chain := by
  rcases fresh with rfl | ⟨params, built⟩
  · exact ⟨by simp, by simp⟩
  · obtain ⟨policy, parameterId, rfl⟩ := ofParameters_eq_ok built
    exact ⟨by simp, by simp⟩

/-- An elementary change stores only consistent validations. -/
theorem Change.consistentWork
    {incoming : Option OrphanShare}
    (offered :
      ∀ record, incoming = some record → ConsistentPow record.powValidation)
    {chain next : ShareChain}
    (change : Change backend incoming chain next)
    (consistent : ConsistentWork chain) :
    ConsistentWork next := by
  cases change with
  | growth growth =>
      cases growth with
      | @attach branch record source _ _ _ _ =>
          have recorded : ConsistentPow record.powValidation :=
            source.elim (offered record) fun found => consistent.orphans found
          constructor
          · intro id entry found
            rcases getElem?_insert_iff.mp found with ⟨_, rfl⟩ | ⟨_, old⟩
            · exact recorded
            · exact consistent.connected old
          · intro id orphan found
            exact consistent.orphans (getElem?_erase_iff.mp found).2
      | buffer source _ _ _ _ _ =>
          refine ⟨consistent.connected, ?_⟩
          intro id orphan found
          rcases getElem?_insert_iff.mp found with ⟨_, rfl⟩ | ⟨_, old⟩
          · exact offered _ source
          · exact consistent.orphans old
      | discard _ _ _ _ =>
          refine ⟨consistent.connected, ?_⟩
          intro id orphan found
          exact consistent.orphans (getElem?_erase_iff.mp found).2
      | unindex parentId => exact ⟨consistent.connected, consistent.orphans⟩
  | @upgrade _ id entry validation _ _ _ _ _ _ worked =>
      refine ⟨?_, consistent.orphans⟩
      intro other updated found
      rcases getElem?_insert_iff.mp found with ⟨_, rfl⟩ | ⟨_, old⟩
      · rintro _ ⟨⟩
        exact worked
      · exact consistent.connected old
  | retain retains _ =>
      refine ⟨?_, consistent.orphans⟩
      intro id entry found
      exact consistent.connected (retains.lookup.mp found).1

/-- Whatever throws, only consistent validations are stored. -/
theorem attemptOps_consistentWork
    {ops : List ChainOp}
    {chain : ShareChain}
    (sound : Sound backend chain)
    (trusted : Trusted chain)
    (consistent : ConsistentWork chain) :
    ConsistentWork (attemptOps backend ops chain) := by
  induction ops generalizing chain with
  | nil => exact consistent
  | cons op rest inductionHypothesis =>
      obtain ⟨incoming, offered, changes⟩ :=
        ChainOp.run_changes sound trusted op
      have consistentRecord :
          ∀ record, incoming = some record →
            ConsistentPow record.powValidation :=
        fun record same => (offered record same).2
      have next := changes.preserves Trusted
        (fun _ _ holds change => change.trusted consistentRecord holds)
        trusted
      have stored := changes.preserves ConsistentWork
        (fun _ _ holds change => change.consistentWork consistentRecord holds)
        consistent
      exact inductionHypothesis (changes.sound sound) next stored

end ShareChain

/--
Difficulties survive their decimal text and hashes are compared by the exact
product; both readers accept the same texts with the same value; and what a
candidate is validated to be is consistent, wherever the chain stores it.
-/
theorem difficultyAndTargetLaws
    (backend : Backend) :
    (∀ difficulty : Difficulty128, difficulty ≠ 0 →
      difficulty128FromDecimal (PowTarget.difficulty128ToDecimal difficulty) =
          .ok difficulty ∧
        ∀ hash : Hash256,
          PowTarget.hashMeetsDifficulty hash
              (PowTarget.difficulty128ToDecimal difficulty) =
            .ok (decide (hash.toNat * difficulty.toNat < 2 ^ 256))) ∧
    (∀ text : List Char,
      ((∃ value, difficulty128FromDecimal text = .ok value) ↔
        (∀ digit ∈ text, digit.isDigit = true) ∧
          1 ≤ Nat.ofDigitChars 10 text 0 ∧
          Nat.ofDigitChars 10 text 0 ≤ 2 ^ 128 - 1) ∧
      ∀ value : Difficulty128,
        (difficulty128FromDecimal text = .ok value ↔
          PowTarget.parseDifficulty text = .ok value) ∧
        (difficulty128FromDecimal text = .ok value →
          value.toNat = Nat.ofDigitChars 10 text 0)) ∧
    (∀ (share network : Difficulty128) (height nonce : UInt64)
        (miningHeaderHash : Hash256) (mode : ProgPowZContextMode)
        (validation : CandidateValidation),
      share ≠ 0 →
      share ≤ network →
      validateCandidate backend height miningHeaderHash nonce
          (PowTarget.difficulty128ToDecimal share)
          (PowTarget.difficulty128ToDecimal network) mode =
        .ok validation →
      (validation.meetsNetworkDifficulty = true →
        validation.meetsShareDifficulty = true) ∧
      classifyPowHash validation.pow.finalHash
          (PowTarget.difficulty128ToDecimal share)
          (PowTarget.difficulty128ToDecimal network) =
        .ok validation.classification) ∧
    (∀ (hash : Hash256) (text : List Char),
      PowTarget.hashMeetsDifficulty hash text =
        hashMeetsDifficulty hash text) ∧
    (∀ (start : ShareChain) (ops : List ChainOp),
      ShareChain.Fresh backend start →
        ShareChain.ConsistentWork (attemptOps backend ops start)) := by
  refine ⟨?_, ?_, ?_, PowTarget.hashMeetsDifficulty_eq, ?_⟩
  · intro difficulty nonzero
    constructor
    · rw [difficulty128FromDecimal_eq, PowTarget.difficulty128ToDecimal_eq]
      exact readDecimal_toDigits nonzero
    · intro hash
      rw [PowTarget.hashMeetsDifficulty_eq,
        PowTarget.difficulty128ToDecimal_eq]
      exact hashMeetsDifficulty_product nonzero hash
  · intro text
    rw [difficulty128FromDecimal_eq]
    refine ⟨readDecimal_accepts_iff, ?_⟩
    intro value
    refine ⟨readDecimal_eq_ok.trans readDecimal_eq_ok.symm, ?_⟩
    intro read
    exact (readDecimal_eq_ok.mp read).2.1
  · intro share network height nonce miningHeaderHash mode validation nonzero
      below validated
    rw [PowTarget.difficulty128ToDecimal_eq,
      PowTarget.difficulty128ToDecimal_eq] at validated ⊢
    exact validateCandidate_classified nonzero below validated
  · intro start ops fresh
    have wellFormed := fresh.wellFormed
    exact ShareChain.attemptOps_consistentWork wellFormed.sound
      wellFormed.trusted fresh.consistentWork

/-- A backend whose proof-of-work hash is of 201 bits. -/
def smallHashBackend : Backend where
  cnFastHash := sampleBackend.cnFastHash
  progpowzAvailable := true
  progpowzHash := fun _ _ _ _ =>
    .ok { finalHash := BitVec.ofNat 256 (2 ^ 200), mixHash := 0 }

/-- A number with a zero in front. -/
def sampleDigits : List Char :=
  ['0', '9', '8', '7', '6', '5', '4', '3', '2', '1', '0', '9', '8', '7']

/-- A share of seventeen digits on a block of twenty, and a run of three shares. -/
theorem difficultyAndTargetLaws_sample :
    let share : Difficulty128 := 12345678901234567
    let network : Difficulty128 := 98765432109876543210
    let reached := attemptOps smallHashBackend sampleOps sampleStart
    difficulty128FromDecimal (PowTarget.difficulty128ToDecimal share) =
        .ok share ∧
      (∃ value,
        difficulty128FromDecimal sampleDigits = .ok value ∧
          value.toNat = 9876543210987) ∧
      PowTarget.hashMeetsDifficulty (BitVec.ofNat 256 (2 ^ 200))
          (PowTarget.difficulty128ToDecimal share) =
        .ok true ∧
      (∃ validation,
        validateCandidate smallHashBackend 7 5 3
            (PowTarget.difficulty128ToDecimal share)
            (PowTarget.difficulty128ToDecimal network) .light =
          .ok validation ∧
        validation.classification = .share ∧
        classifyPowHash validation.pow.finalHash
            (PowTarget.difficulty128ToDecimal share)
            (PowTarget.difficulty128ToDecimal network) = .ok .share) ∧
      reached.connected.size = 3 ∧ ShareChain.ConsistentWork reached := by
  obtain ⟨round, texts, candidates, _, stored⟩ :=
    difficultyAndTargetLaws smallHashBackend
  obtain ⟨readBack, compared⟩ := round 12345678901234567 (by decide)
  obtain ⟨accepts, values⟩ := texts sampleDigits
  have read : Nat.ofDigitChars 10 sampleDigits 0 = 9876543210987 := by
    simp [sampleDigits, Nat.ofDigitChars]
  rw [read] at accepts
  obtain ⟨value, accepted⟩ := accepts.mpr
    ⟨by simp [sampleDigits, Char.isDigit], by norm_num, by norm_num⟩
  have runs :
      (validateCandidate smallHashBackend 7 5 3
        (PowTarget.difficulty128ToDecimal 12345678901234567)
        (PowTarget.difficulty128ToDecimal 98765432109876543210)
        .light).toOption.map CandidateValidation.classification =
          some .share := by
    decide +kernel
  refine ⟨readBack, ⟨value, accepted, ?_⟩, ?_, ?_, by decide +kernel,
    stored sampleStart sampleOps (.inr ⟨sampleParameters, rfl⟩)⟩
  · rw [(values value).2 accepted, read]
  · rw [compared]
    decide +kernel
  · cases validated : validateCandidate smallHashBackend 7 5 3
        (PowTarget.difficulty128ToDecimal 12345678901234567)
        (PowTarget.difficulty128ToDecimal 98765432109876543210) .light with
    | error thrown =>
        rw [validated] at runs
        cases runs
    | ok validation =>
        rw [validated] at runs
        have isShare : validation.classification = .share :=
          Option.some.inj runs
        obtain ⟨_, classified⟩ := candidates 12345678901234567
          98765432109876543210 7 3 5 .light validation (by decide)
          (by decide) validated
        rw [isShare] at classified
        exact ⟨validation, rfl, isShare, classified⟩

end ZanoP2pool
