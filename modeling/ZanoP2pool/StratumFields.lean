import ZanoP2pool.StratumProtocol
import ZanoP2pool.SubmittedBlock

namespace ZanoP2pool

open Foundation

/-!
# The texts a Stratum submission accepts

A hash field loses a marker twice, once where its length is checked and once
where its digits are read.  A second marker therefore takes the place of two
digits, and the last byte of the hash is zero instead of refused.
-/

/-- The value of a hexadecimal digit of either case. -/
def hexDigitValue (letter : UInt8) : Option Nat :=
  if '0'.toUInt8 ≤ letter ∧ letter ≤ '9'.toUInt8 then
    some (letter.toNat - '0'.toNat)
  else if 'a'.toUInt8 ≤ letter ∧ letter ≤ 'f'.toUInt8 then
    some (letter.toNat - 'a'.toNat + 10)
  else if 'A'.toUInt8 ≤ letter ∧ letter ≤ 'F'.toUInt8 then
    some (letter.toNat - 'A'.toNat + 10)
  else
    none

/-- Hexadecimal digits with their values, and nothing else. -/
abbrev HexDigits (digits : List UInt8) (values : List Nat) : Prop :=
  List.Forall₂ (fun letter value => hexDigitValue letter = some value) digits values

/-- The letter of a `0x` or `0X` marker. -/
def IsMarker (letter : UInt8) : Prop :=
  letter = 'x'.toUInt8 ∨ letter = 'X'.toUInt8

/-- A text is the digits, with or without one marker before them. -/
def OptionalPrefix (text digits : List UInt8) : Prop :=
  text = digits ∨
    ∃ letter, IsMarker letter ∧ text = '0'.toUInt8 :: letter :: digits

/-- One to sixteen digits behind an optional marker denote the nonce. -/
def NonceText (text : List UInt8) (nonce : UInt64) : Prop :=
  ∃ digits values,
    OptionalPrefix text digits ∧ HexDigits digits values ∧
      1 ≤ digits.length ∧ digits.length ≤ 16 ∧
      nonce.toNat = digitsValue 16 values

/-- Exactly 64 digits behind an optional marker denote all bytes of the hash. -/
def HashText (text : List UInt8) (hash : Hash256) : Prop :=
  ∃ digits values,
    OptionalPrefix text digits ∧ HexDigits digits values ∧
      digits.length = 64 ∧ hash.toNat = digitsValue 16 values

/-- Two markers and 62 digits, which leave the last byte of the hash to be zero. -/
def DoubledText (text : List UInt8) (hash : Hash256) : Prop :=
  ∃ outer inner digits values,
    IsMarker outer ∧ IsMarker inner ∧
      text = '0'.toUInt8 :: outer :: '0'.toUInt8 :: inner :: digits ∧
      HexDigits digits values ∧ digits.length = 62 ∧
      hash.toNat = digitsValue 16 values * 256

section Digits

private theorem digit_readers (letter : UInt8) :
    digitOfBase 16 letter = hexDigitValue letter ∧
      (hexNibble letter).toOption.map UInt8.toNat = hexDigitValue letter ∧
      (hexDigitValue letter).all (· < 16) := by
  have every :
      ∀ value : Fin 256,
        let letter := UInt8.ofNat value.val
        digitOfBase 16 letter = hexDigitValue letter ∧
          (hexNibble letter).toOption.map UInt8.toNat = hexDigitValue letter ∧
          (hexDigitValue letter).all (· < 16) := by
    decide +kernel
  have here := every ⟨letter.toNat, letter.toNat_lt⟩
  simpa only [UInt8.ofNat_toNat] using here

theorem digitOfBase_sixteen (letter : UInt8) :
    digitOfBase 16 letter = hexDigitValue letter :=
  (digit_readers letter).1

theorem hexDigitValue_of_hexNibble
    {letter nibble : UInt8}
    (read : hexNibble letter = .ok nibble) :
    hexDigitValue letter = some nibble.toNat := by
  rw [← (digit_readers letter).2.1, read]
  rfl

theorem hexDigitValue_lt
    {letter : UInt8}
    {value : Nat}
    (found : hexDigitValue letter = some value) :
    value < 16 := by
  have small := (digit_readers letter).2.2
  rw [found] at small
  simpa using small

theorem hexNibble_of_hexDigitValue
    {letter : UInt8}
    {value : Nat}
    (found : hexDigitValue letter = some value) :
    hexNibble letter = .ok (UInt8.ofNat value) := by
  have read := (digit_readers letter).2.1
  rw [found] at read
  cases result : hexNibble letter with
  | error failure =>
      rw [result] at read
      cases read
  | ok nibble =>
      rw [result] at read
      have same : nibble.toNat = value := Option.some.inj read
      rw [← same, UInt8.ofNat_toNat]

/-- A marker is not a digit. -/
theorem hexDigitValue_marker
    {letter : UInt8}
    (marker : IsMarker letter) :
    hexDigitValue letter = none := by
  rcases marker with rfl | rfl <;> rfl

theorem HexDigits.small
    {digits : List UInt8}
    {values : List Nat}
    (spelled : HexDigits digits values) :
    ∀ value ∈ values, value < 16 := by
  induction spelled with
  | nil => simp
  | cons found _ inductionHypothesis =>
      intro value member
      rcases List.mem_cons.mp member with rfl | later
      · exact hexDigitValue_lt found
      · exact inductionHypothesis value later

/-- The value of the digits fits the bits they stand for. -/
theorem HexDigits.value_lt
    {digits : List UInt8}
    {values : List Nat}
    (spelled : HexDigits digits values) :
    digitsValue 16 values < 16 ^ digits.length := by
  rw [spelled.length_eq]
  exact digitsValue_lt (by omega) spelled.small

/-- The reader of numbers takes each digit. -/
theorem HexDigits.all_digits
    {digits : List UInt8}
    {values : List Nat}
    (spelled : HexDigits digits values) :
    ∀ letter ∈ digits, (digitOfBase 16 letter).isSome = true := by
  induction spelled with
  | nil => simp
  | cons found _ inductionHypothesis =>
      intro letter member
      rcases List.mem_cons.mp member with rfl | later
      · rw [digitOfBase_sixteen, found]
        rfl
      · exact inductionHypothesis letter later

end Digits

section Prefixes

/-- Stripping removes one marker, and only a marker. -/
theorem optionalPrefix_stripHexPrefix (text : List UInt8) :
    OptionalPrefix text (stripHexPrefix text) := by
  unfold stripHexPrefix
  split
  · exact .inr ⟨_, .inl rfl, rfl⟩
  · exact .inr ⟨_, .inr rfl, rfl⟩
  · exact .inl rfl

/-- Digits have no marker to lose. -/
theorem stripHexPrefix_digits
    {digits : List UInt8}
    {values : List Nat}
    (spelled : HexDigits digits values) :
    stripHexPrefix digits = digits := by
  unfold stripHexPrefix
  split
  · cases spelled with
    | cons _ later =>
        cases later with
        | cons found _ => cases found
  · cases spelled with
    | cons _ later =>
        cases later with
        | cons found _ => cases found
  · rfl

theorem stripHexPrefix_marked
    {letter : UInt8}
    (marker : IsMarker letter)
    (digits : List UInt8) :
    stripHexPrefix ('0'.toUInt8 :: letter :: digits) = digits := by
  rcases marker with rfl | rfl <;> rfl

theorem OptionalPrefix.stripHexPrefix_eq
    {text digits : List UInt8}
    {values : List Nat}
    (written : OptionalPrefix text digits)
    (spelled : HexDigits digits values) :
    stripHexPrefix text = digits := by
  rcases written with rfl | ⟨letter, marker, rfl⟩
  · exact stripHexPrefix_digits spelled
  · exact stripHexPrefix_marked marker digits

/-- The byte reader strips the same marker before it reads pairs. -/
theorem hexToBytes_eq (hex : List UInt8) :
    hexToBytes hex =
      if (stripHexPrefix hex).length % 2 ≠ 0 then
        throw (.invalidArgument "hex string must contain an even number of digits")
      else
        hexPairs (stripHexPrefix hex) := by
  rfl

end Prefixes

section Pairs

/-- A pair of digits is one byte. -/
theorem toNat_pair
    {high low : Nat}
    (highSmall : high < 16)
    (lowSmall : low < 16) :
    (UInt8.ofNat high <<< 4 ||| UInt8.ofNat low).toNat = high * 16 + low := by
  have every :
      ∀ high low : Fin 16,
        (UInt8.ofNat high.val <<< 4 ||| UInt8.ofNat low.val).toNat =
          high.val * 16 + low.val := by
    decide +kernel
  exact every ⟨high, highSmall⟩ ⟨low, lowSmall⟩

/-- Two leading digits are worth the rest shifted past them. -/
theorem digitsValue_pair
    (high low : Nat)
    (values : List Nat) :
    digitsValue 16 (high :: low :: values) =
      (high * 16 + low) * 16 ^ values.length + digitsValue 16 values := by
  rw [digitsValue_eq_ofDigits, digitsValue_eq_ofDigits, List.reverse_cons,
    List.reverse_cons, List.append_assoc, Nat.ofDigits_append,
    List.length_reverse]
  simp only [List.singleton_append, Nat.ofDigits_cons, Nat.ofDigits_nil]
  ring

/-- The bytes read are those the digits denote. -/
theorem hexPairs_of_digits
    {digits : List UInt8}
    {values : List Nat}
    (spelled : HexDigits digits values)
    (even : digits.length % 2 = 0) :
    ∃ bytes,
      hexPairs digits = .ok bytes ∧ 2 * bytes.length = digits.length ∧
        ofBigEndian bytes = digitsValue 16 values := by
  induction digits using hexPairs.induct generalizing values with
  | case1 =>
      cases spelled
      exact ⟨[], rfl, rfl, rfl⟩
  | case2 digit =>
      cases even
  | case3 first second rest inductionHypothesis =>
      rcases spelled with _ | @⟨_, high, _, _, highFound, later⟩
      rcases later with _ | @⟨_, low, _, values, lowFound, remaining⟩
      obtain ⟨bytes, read, count, value⟩ :=
        inductionHypothesis remaining
          (by simp only [List.length_cons] at even; omega)
      refine ⟨(UInt8.ofNat high <<< 4 ||| UInt8.ofNat low) :: bytes, ?_, ?_, ?_⟩
      · rw [hexPairs, hexNibble_of_hexDigitValue highFound,
          hexNibble_of_hexDigitValue lowFound]
        simp only [bind, Except.bind, read]
        rfl
      · simp only [List.length_cons]
        omega
      · rw [ofBigEndian_cons, value, digitsValue_pair,
          toNat_pair (hexDigitValue_lt highFound) (hexDigitValue_lt lowFound),
          ← remaining.length_eq, ← count, pow_mul]
        norm_num

/-- Only digits are read. -/
theorem digits_of_hexPairs
    {digits bytes : List UInt8}
    (read : hexPairs digits = .ok bytes) :
    ∃ values, HexDigits digits values := by
  induction digits using hexPairs.induct generalizing bytes with
  | case1 => exact ⟨[], .nil⟩
  | case2 digit => cases read
  | case3 first second rest inductionHypothesis =>
      rw [hexPairs] at read
      obtain ⟨high, highRead, read⟩ := except_bind_eq_ok.mp read
      obtain ⟨low, lowRead, read⟩ := except_bind_eq_ok.mp read
      obtain ⟨later, laterRead, _⟩ := except_bind_eq_ok.mp read
      obtain ⟨values, spelled⟩ := inductionHypothesis laterRead
      exact ⟨_, .cons (hexDigitValue_of_hexNibble highRead)
        (.cons (hexDigitValue_of_hexNibble lowRead) spelled)⟩

end Pairs

section Nonces

/-- Among digits, the reader of numbers stops nowhere. -/
theorem fromChars_digits
    {digits : List UInt8}
    {values : List Nat}
    (spelled : HexDigits digits values)
    (several : 1 ≤ digits.length)
    (fits : digits.length ≤ 16) :
    fromChars 16 digits = ⟨.ok (UInt64.ofNat (digitsValue 16 values)), []⟩ := by
  have every := spelled.all_digits
  have read : digits.filterMap (digitOfBase 16) = values := by
    clear several fits every
    induction spelled with
    | nil => rfl
    | cons found _ inductionHypothesis =>
        rw [List.filterMap_cons, digitOfBase_sixteen, found, inductionHypothesis]
  have small : digitsValue 16 values < 2 ^ 64 :=
    calc
      digitsValue 16 values < 16 ^ digits.length := spelled.value_lt
      _ ≤ 16 ^ 16 := Nat.pow_le_pow_right (by omega) fits
      _ = 2 ^ 64 := by norm_num
  have some : digits.isEmpty = false := by
    cases digits with
    | nil => cases several
    | cons _ _ => rfl
  have taken :
      digits.takeWhile (fun letter => (digitOfBase 16 letter).isSome) = digits :=
    List.takeWhile_eq_self_iff.mpr every
  have left :
      digits.dropWhile (fun letter => (digitOfBase 16 letter).isSome) = [] :=
    List.dropWhile_eq_nil_iff.mpr every
  simp only [fromChars, taken, left, some, read, if_pos small, Bool.false_eq_true,
    if_false]

/-- Where the reader of numbers leaves nothing, it read digits. -/
theorem digits_of_fromChars
    {digits : List UInt8}
    (whole : (fromChars 16 digits).unread = [])
    (several : digits ≠ []) :
    ∃ values, HexDigits digits values := by
  have every : ∀ letter ∈ digits, (digitOfBase 16 letter).isSome = true := by
    apply List.dropWhile_eq_nil_iff.mp
    dsimp only [fromChars] at whole
    split_ifs at whole
    · exact absurd whole several
    · exact whole
    · exact whole
  clear whole several
  induction digits with
  | nil => exact ⟨[], .nil⟩
  | cons letter rest inductionHypothesis =>
      obtain ⟨values, spelled⟩ :=
        inductionHypothesis fun other member =>
          every other (List.mem_cons_of_mem letter member)
      have found := every letter (List.mem_cons_self ..)
      rw [digitOfBase_sixteen] at found
      obtain ⟨value, read⟩ := Option.isSome_iff_exists.mp found
      exact ⟨value :: values, .cons read spelled⟩

/-- The nonce reader accepts exactly the texts that denote a nonce. -/
theorem parseHexU64_eq_ok
    {text : List UInt8}
    {nonce : UInt64} :
    parseHexU64 text = .ok nonce ↔ NonceText text nonce := by
  constructor
  · intro parsed
    simp only [parseHexU64, throw, throwThe, MonadExceptOf.throw] at parsed
    obtain ⟨length, parsed⟩ := except_guard_eq_ok.mp parsed
    push Not at length
    have several : stripHexPrefix text ≠ [] := by
      simpa using length.1
    split at parsed
    · rename_i value read
      by_cases whole : (fromChars 16 (stripHexPrefix text)).unread.isEmpty = true
      · rw [if_pos whole] at parsed
        have same : value = nonce := Except.ok.inj parsed
        obtain ⟨values, spelled⟩ :=
          digits_of_fromChars (List.isEmpty_iff.mp whole) several
        have positive := List.length_pos_iff.mpr several
        rw [fromChars_digits spelled positive length.2] at read
        have denoted : UInt64.ofNat (digitsValue 16 values) = nonce :=
          (Except.ok.inj read).trans same
        have small : digitsValue 16 values < 2 ^ 64 :=
          calc
            digitsValue 16 values < 16 ^ (stripHexPrefix text).length :=
              spelled.value_lt
            _ ≤ 16 ^ 16 := Nat.pow_le_pow_right (by omega) length.2
            _ = 2 ^ 64 := by norm_num
        refine ⟨_, values, optionalPrefix_stripHexPrefix text, spelled, positive,
          length.2, ?_⟩
        rw [← denoted, UInt64.toNat_ofNat', Nat.mod_eq_of_lt small]
      · rw [if_neg whole] at parsed
        cases parsed
    · cases parsed
  · rintro ⟨digits, values, written, spelled, several, fits, value⟩
    have stripped := written.stripHexPrefix_eq spelled
    have nonempty : digits.isEmpty = false := by
      cases digits with
      | nil => cases several
      | cons _ _ => rfl
    have short : ¬ (digits.isEmpty = true ∨ digits.length > 16) := by
      rw [nonempty]
      simpa using fits
    simp only [parseHexU64, stripped, if_neg short,
      fromChars_digits spelled several fits, List.isEmpty_nil, if_true]
    rw [← value, UInt64.ofNat_toNat]
    rfl

end Nonces

section Hashes

theorem ofBigEndian_zeros (count : Nat) :
    ofBigEndian (List.replicate count 0) = 0 := by
  induction count with
  | zero => rfl
  | succ count inductionHypothesis =>
      rw [List.replicate_succ, ofBigEndian_cons, inductionHypothesis]
      simp

/-- Bytes copied to the front of the array are followed by zeros. -/
theorem toNat_copied
    {bytes : List UInt8}
    (fits : bytes.length ≤ 32) :
    (BitVec.ofNat 256
        (ofBigEndian (bytes ++ List.replicate (32 - bytes.length) 0))).toNat =
      ofBigEndian bytes * 256 ^ (32 - bytes.length) := by
  have small :=
    ofBigEndian_lt (bytes ++ List.replicate (32 - bytes.length) 0)
  have length :
      (bytes ++ List.replicate (32 - bytes.length) (0 : UInt8)).length = 32 := by
    simp only [List.length_append, List.length_replicate]
    omega
  rw [length] at small
  rw [BitVec.toNat_ofNat, Nat.mod_eq_of_lt (small.trans_eq (by norm_num)),
    ofBigEndian_append, ofBigEndian_zeros, List.length_replicate, Nat.add_zero]

/-- What the digits left by both strippings become. -/
theorem parseHashHex_eq_ok_of_stripped
    {text digits : List UInt8}
    {values : List Nat}
    {hash : Hash256}
    {field : String}
    (length : (stripHexPrefix text).length = 64)
    (stripped : stripHexPrefix (stripHexPrefix text) = digits)
    (spelled : HexDigits digits values)
    (even : digits.length % 2 = 0)
    (fits : digits.length ≤ 64) :
    parseHashHex text field = .ok hash ↔
      hash.toNat = digitsValue 16 values * 256 ^ (32 - digits.length / 2) := by
  obtain ⟨bytes, read, count, value⟩ := hexPairs_of_digits spelled even
  have half : bytes.length = digits.length / 2 := by omega
  have decoded : hexToBytes (stripHexPrefix text) = .ok bytes := by
    rw [hexToBytes_eq, stripped, if_neg (by omega), read]
  have result :
      parseHashHex text field =
        .ok (BitVec.ofNat 256
          (ofBigEndian (bytes ++ List.replicate (32 - bytes.length) 0))) := by
    unfold parseHashHex
    rw [if_neg (by omega), decoded]
    rfl
  rw [result]
  have spelledValue := @toNat_copied bytes (by omega)
  rw [value, half] at spelledValue
  constructor
  · intro same
    rw [← Except.ok.inj same, half, spelledValue]
  · intro same
    refine congrArg Except.ok (BitVec.eq_of_toNat_eq ?_)
    rw [same, half, spelledValue]

/-- A hash field is accepted with one marker at most, or with two and a byte less. -/
theorem parseHashHex_eq_ok
    {text : List UInt8}
    {hash : Hash256}
    {field : String} :
    parseHashHex text field = .ok hash ↔
      HashText text hash ∨ DoubledText text hash := by
  constructor
  · intro parsed
    have opened := parsed
    simp only [parseHashHex, throw, throwThe, MonadExceptOf.throw] at opened
    obtain ⟨length, opened⟩ := except_guard_eq_ok.mp opened
    push Not at length
    obtain ⟨bytes, decoded, _⟩ := except_bind_eq_ok.mp opened
    simp only [hexToBytes_eq, throw, throwThe, MonadExceptOf.throw] at decoded
    obtain ⟨even, read⟩ := except_guard_eq_ok.mp decoded
    obtain ⟨values, spelled⟩ := digits_of_hexPairs read
    have even' : (stripHexPrefix (stripHexPrefix text)).length % 2 = 0 := by omega
    rcases optionalPrefix_stripHexPrefix (stripHexPrefix text) with
      bare | ⟨inner, innerMarker, marked⟩
    · rw [← bare] at spelled
      have value :=
        (parseHashHex_eq_ok_of_stripped length bare.symm spelled
          (by omega) (by omega)).mp parsed
      rw [length] at value
      exact .inl ⟨_, values, optionalPrefix_stripHexPrefix text, spelled, length,
        by simpa using value⟩
    · have shorter :
          (stripHexPrefix (stripHexPrefix text)).length = 62 := by
        have whole := congrArg List.length marked
        simp only [List.length_cons] at whole
        omega
      have value :=
        (parseHashHex_eq_ok_of_stripped length rfl spelled even'
          (by omega)).mp parsed
      rw [shorter] at value
      rcases optionalPrefix_stripHexPrefix text with
        unmarked | ⟨outer, outerMarker, outerMarked⟩
      · have lost := stripHexPrefix_marked innerMarker
          (stripHexPrefix (stripHexPrefix text))
        rw [← marked, ← unmarked] at lost
        rw [unmarked, lost, shorter] at length
        cases length
      · refine .inr ⟨outer, inner, _, values, outerMarker, innerMarker, ?_, spelled,
          shorter, by simpa using value⟩
        rw [← marked]
        exact outerMarked
  · rintro (⟨digits, values, written, spelled, length, value⟩ |
      ⟨outer, inner, digits, values, outerMarker, innerMarker, rfl, spelled, length,
        value⟩)
    · have stripped := written.stripHexPrefix_eq spelled
      have again : stripHexPrefix (stripHexPrefix text) = digits := by
        rw [stripped, stripHexPrefix_digits spelled]
      refine (parseHashHex_eq_ok_of_stripped (by rw [stripped, length]) again spelled
        (by omega) (by omega)).mpr ?_
      simpa [length] using value
    · have stripped :=
        stripHexPrefix_marked outerMarker ('0'.toUInt8 :: inner :: digits)
      have again :
          stripHexPrefix
              (stripHexPrefix
                ('0'.toUInt8 :: outer :: '0'.toUInt8 :: inner :: digits)) =
            digits := by
        rw [stripped, stripHexPrefix_marked innerMarker]
      refine (parseHashHex_eq_ok_of_stripped (by rw [stripped]; simp [length]) again
        spelled (by omega) (by omega)).mpr ?_
      simpa [length] using value

/-- A text with two markers is no text of a hash. -/
theorem HashText.not_doubled
    {text : List UInt8}
    {hash other : Hash256}
    (denotes : HashText text hash)
    (doubled : DoubledText text other) :
    False := by
  obtain ⟨digits, values, written, spelled, _⟩ := denotes
  obtain ⟨outer, inner, rest, _, outerMarker, innerMarker, rfl, _⟩ := doubled
  have stripped := written.stripHexPrefix_eq spelled
  rw [stripHexPrefix_marked outerMarker] at stripped
  subst stripped
  cases spelled with
  | cons _ later =>
      cases later with
      | cons found _ =>
          rw [hexDigitValue_marker innerMarker] at found
          cases found

end Hashes

section Submissions

/-- The three fields of the request denote those of the submission. -/
def SubmissionDenotes
    (request : StratumRequest)
    (submission : StratumSubmission) : Prop :=
  ∃ nonceText headerText mixText,
    request.params = [nonceText, headerText, mixText] ∧
      NonceText nonceText submission.nonce ∧
      HashText headerText submission.headerHash ∧
      HashText mixText submission.mixHash

/-- A request is accepted iff its fields are well formed, with their values. -/
def ReadsExactly (request : StratumRequest) : Prop :=
  ((∃ submission, parseStratumSubmission request = .ok submission) ↔
      ∃ submission, SubmissionDenotes request submission) ∧
    ∀ submission, parseStratumSubmission request = .ok submission →
      SubmissionDenotes request submission

/-- A hash of an otherwise acceptable request has two markers. -/
def DoublesMarker (request : StratumRequest) : Prop :=
  ∃ nonceText headerText mixText nonce headerHash mixHash,
    request.params = [nonceText, headerText, mixText] ∧
      NonceText nonceText nonce ∧
      (HashText headerText headerHash ∨ DoubledText headerText headerHash) ∧
      (HashText mixText mixHash ∨ DoubledText mixText mixHash) ∧
      (DoubledText headerText headerHash ∨ DoubledText mixText mixHash)

/-- What the reader of submissions accepts, field by field. -/
theorem parseStratumSubmission_eq_ok
    {request : StratumRequest}
    {submission : StratumSubmission}
    (submits : stratumMethod request = .submitWork) :
    parseStratumSubmission request = .ok submission ↔
      ∃ nonceText headerText mixText,
        request.params = [nonceText, headerText, mixText] ∧
          NonceText nonceText submission.nonce ∧
          (HashText headerText submission.headerHash ∨
            DoubledText headerText submission.headerHash) ∧
          (HashText mixText submission.mixHash ∨
            DoubledText mixText submission.mixHash) ∧
          submission.worker = request.worker := by
  unfold parseStratumSubmission
  rw [if_neg (by simp [submits])]
  constructor
  · intro parsed
    split at parsed
    · rename_i nonceText headerText mixText params
      obtain ⟨nonce, nonceRead, parsed⟩ := except_bind_eq_ok.mp parsed
      obtain ⟨headerHash, headerRead, parsed⟩ := except_bind_eq_ok.mp parsed
      obtain ⟨mixHash, mixRead, parsed⟩ := except_bind_eq_ok.mp parsed
      cases parsed
      exact ⟨nonceText, headerText, mixText, params, parseHexU64_eq_ok.mp nonceRead,
        parseHashHex_eq_ok.mp headerRead, parseHashHex_eq_ok.mp mixRead, rfl⟩
    · cases parsed
  · rintro ⟨nonceText, headerText, mixText, params, nonce, header, mix, worker⟩
    rw [params]
    simp only [parseHexU64_eq_ok.mpr nonce, parseHashHex_eq_ok.mpr header,
      parseHashHex_eq_ok.mpr mix, ← worker, bind, Except.bind]
    rfl

/-- Well-formed fields are accepted. -/
theorem SubmissionDenotes.parses
    {request : StratumRequest}
    {submission : StratumSubmission}
    (denotes : SubmissionDenotes request submission)
    (submits : stratumMethod request = .submitWork) :
    parseStratumSubmission request =
      .ok { submission with worker := request.worker } := by
  obtain ⟨nonceText, headerText, mixText, params, nonce, header, mix⟩ := denotes
  exact (parseStratumSubmission_eq_ok submits).mpr
    ⟨nonceText, headerText, mixText, params, nonce, .inl header, .inl mix, rfl⟩

/-- The fields are read exactly unless a hash has two markers. -/
theorem readsExactly_iff
    {request : StratumRequest}
    (submits : stratumMethod request = .submitWork) :
    ReadsExactly request ↔ ¬ DoublesMarker request := by
  constructor
  · rintro ⟨_, values⟩
      ⟨nonceText, headerText, mixText, nonce, headerHash, mixHash, params, nonceRead,
        headerRead, mixRead, doubled⟩
    have parsed :
        parseStratumSubmission request =
          .ok { nonce, headerHash, mixHash, worker := request.worker } :=
      (parseStratumSubmission_eq_ok submits).mpr
        ⟨nonceText, headerText, mixText, params, nonceRead, headerRead, mixRead, rfl⟩
    obtain ⟨_, _, _, sameParams, _, header, mix⟩ := values _ parsed
    rw [params] at sameParams
    cases sameParams
    rcases doubled with twice | twice
    · exact header.not_doubled twice
    · exact mix.not_doubled twice
  · intro single
    have values :
        ∀ submission, parseStratumSubmission request = .ok submission →
          SubmissionDenotes request submission := by
      intro submission parsed
      obtain ⟨nonceText, headerText, mixText, params, nonce, header, mix, _⟩ :=
        (parseStratumSubmission_eq_ok submits).mp parsed
      have notDoubled :
          ¬ (DoubledText headerText submission.headerHash ∨
            DoubledText mixText submission.mixHash) :=
        fun doubled => single
          ⟨nonceText, headerText, mixText, submission.nonce, submission.headerHash,
            submission.mixHash, params, nonce, header, mix, doubled⟩
      push Not at notDoubled
      exact ⟨nonceText, headerText, mixText, params, nonce,
        header.resolve_right notDoubled.1, mix.resolve_right notDoubled.2⟩
    refine ⟨⟨?_, ?_⟩, values⟩
    · rintro ⟨submission, parsed⟩
      exact ⟨submission, values submission parsed⟩
    · rintro ⟨submission, denotes⟩
      exact ⟨_, denotes.parses submits⟩

end Submissions

section Notifications

/-- The digits written for bytes are digits. -/
theorem hexDigits_bytesToHex (bytes : List UInt8) :
    ∃ values,
      HexDigits (bytesToHex bytes) values ∧
        ofBigEndian bytes = digitsValue 16 values := by
  obtain ⟨values, spelled⟩ := digits_of_hexPairs (hexPairs_bytesToHex bytes)
  obtain ⟨read, decoded, _, value⟩ :=
    hexPairs_of_digits spelled (even_length_bytesToHex bytes)
  rw [hexPairs_bytesToHex] at decoded
  cases decoded
  exact ⟨values, spelled, value⟩

/-- A hash is read back from its marked digits. -/
theorem parseHashHex_hashToHex
    (hash : Hash256)
    (field : String) :
    parseHashHex ([0x30, 0x78] ++ hashToHex hash) field = .ok hash := by
  obtain ⟨values, spelled, value⟩ := hexDigits_bytesToHex (hashBytes hash)
  have fits : hash.toNat < 256 ^ 32 := hash.isLt.trans_eq (by norm_num)
  obtain ⟨bytes, read, count, _⟩ :=
    hexPairs_of_digits spelled (even_length_bytesToHex (hashBytes hash))
  rw [hexPairs_bytesToHex] at read
  cases read
  rw [hashBytes, length_bigEndian] at count
  refine parseHashHex_eq_ok.mpr (.inl ⟨_, values, .inr ⟨_, .inl rfl, rfl⟩, spelled,
    count.symm, ?_⟩)
  rw [← value, hashBytes, ofBigEndian_bigEndian_of_lt fits]

/-- A digit that is written is read back. -/
theorem hexDigitValue_hexDigit
    {digit : Nat}
    (small : digit < 16) :
    hexDigitValue (hexDigit (UInt8.ofNat digit)) = some digit := by
  have every :
      ∀ digit : Fin 16,
        hexDigitValue (hexDigit (UInt8.ofNat digit.val)) = some digit.val := by
    decide
  exact every ⟨digit, small⟩

theorem hexDigits_map
    {values : List Nat}
    (small : ∀ value ∈ values, value < 16) :
    HexDigits (values.map fun digit => hexDigit (UInt8.ofNat digit)) values := by
  rw [HexDigits, List.forall₂_map_left_iff, List.forall₂_same]
  intro value member
  exact hexDigitValue_hexDigit (small value member)

/-- A number is read back from its sixteen digits. -/
theorem parseHexU64_stratumUint64Hex (value : UInt64) :
    parseHexU64 (stratumUint64Hex value) = .ok value := by
  have fits : value.toNat < 16 ^ 16 := value.toNat_lt.trans_eq (by norm_num)
  have length : (fixedDigits 16 16 value.toNat).length = 16 :=
    length_fixedDigits (by omega) fits
  refine parseHexU64_eq_ok.mpr ⟨_, fixedDigits 16 16 value.toNat,
    .inr ⟨_, .inl rfl, rfl⟩,
    hexDigits_map fun digit member => lt_of_mem_fixedDigits (by omega) member,
    by simp [length], by simp [length], ?_⟩
  rw [digitsValue_fixedDigits (by omega) fits]

end Notifications

/--
A submission is read exactly as its fields denote, unless one of its hashes has
two markers; what is sent to miners always reads back.
-/
theorem parseStratumSubmission_exact_iff
    (request : StratumRequest)
    (submits : stratumMethod request = .submitWork) :
    (ReadsExactly request ↔ ¬ DoublesMarker request) ∧
      (∀ work field, ∃ header seed target height,
        makeWorkArray work = [header, seed, target, height] ∧
          parseHashHex header field = .ok work.headerHash ∧
          parseHashHex seed field = .ok work.seedHash ∧
          parseHashHex target field = .ok work.shareTarget.bigEndian) ∧
      ∀ value, parseHexU64 (stratumUint64Hex value) = .ok value :=
  ⟨readsExactly_iff submits,
    fun work field => ⟨_, _, _, _, rfl, parseHashHex_hashToHex work.headerHash field,
      parseHashHex_hashToHex work.seedHash field,
      parseHashHex_hashToHex work.shareTarget.bigEndian field⟩,
    parseHexU64_stratumUint64Hex⟩

/-- A submission of nonce one whose header field is the given text. -/
def sampleSubmission (header : List UInt8) : StratumRequest where
  id := .integer 7
  method := textBytes "eth_submitWork"
  params := [textBytes "0x1", header, textBytes "0x" ++ List.replicate 64 0x61]
  worker := []

private theorem sample_nonce : NonceText (textBytes "0x1") 1 :=
  ⟨[0x31], [1], .inr ⟨_, .inl rfl, rfl⟩, .cons rfl .nil, by decide, by decide, rfl⟩

private theorem sample_digits (count : Nat) :
    HexDigits (List.replicate count 0x61) (List.replicate count 10) := by
  induction count with
  | zero => exact .nil
  | succ count inductionHypothesis => exact .cons rfl inductionHypothesis

/-- The hash that a number of equal digits and some zeros denote. -/
def sampleDigest (digits zeros : Nat) : Hash256 :=
  BitVec.ofNat 256 (digitsValue 16 (List.replicate digits 10) * 16 ^ zeros)

/-- Two markers before 62 digits are accepted although they are no hash. -/
theorem sampleSubmission_doubled :
    ¬ ReadsExactly
      (sampleSubmission (textBytes "0x0x" ++ List.replicate 62 0x61)) := by
  have submits :
      stratumMethod
          (sampleSubmission (textBytes "0x0x" ++ List.replicate 62 0x61)) =
        .submitWork := by
    decide
  have mix :
      HashText (textBytes "0x" ++ List.replicate 64 0x61) (sampleDigest 64 0) :=
    ⟨List.replicate 64 0x61, _, .inr ⟨_, .inl rfl, rfl⟩, sample_digits 64, rfl,
      by decide +kernel⟩
  have doubled :
      DoubledText (textBytes "0x0x" ++ List.replicate 62 0x61)
        (sampleDigest 62 2) :=
    ⟨_, _, List.replicate 62 0x61, _, .inl rfl, .inl rfl, rfl, sample_digits 62, rfl,
      by decide +kernel⟩
  exact fun exact => (readsExactly_iff submits).mp exact
    ⟨_, _, _, 1, _, _, rfl, sample_nonce, .inr doubled, .inl mix, .inl doubled⟩

theorem parseStratumSubmission_exact_sample :
    ReadsExactly
      (sampleSubmission (textBytes "0x" ++ List.replicate 64 0x61)) := by
  have single :
      ¬ DoublesMarker
        (sampleSubmission (textBytes "0x" ++ List.replicate 64 0x61)) := by
    rintro ⟨_, _, _, _, _, _, params, _, _, _, doubled⟩
    cases params
    rcases doubled with twice | twice
    · obtain ⟨_, _, _, _, _, _, text, _⟩ := twice
      cases text
    · obtain ⟨_, _, _, _, _, _, text, _⟩ := twice
      cases text
  exact (parseStratumSubmission_exact_iff _ (by decide)).1.mpr single

end ZanoP2pool
