import ZanoP2pool.Foundation.VarintFormat
import ZanoP2pool.MiningHeaderLayout
import ZanoP2pool.P2pMinerTxProofs
import ZanoP2pool.ZanoAddress

namespace ZanoP2pool

open Foundation

/-!
# Readers of variable-length numbers

Several cursors of the program read the same numbers.  All but one insist on the
shortest encoding, one of them by looking at the last group instead of at the
length; they accept the same bytes with the same results.  Read over 64-bit
words, no shift is too far and no bit is lost.
-/

section Writer

/-- The groups of a word, at most a given number of them. -/
def appendVarintGroups : Nat → UInt64 → List UInt8
  | 0, _ => []
  | groups + 1, value =>
      let byte := (value &&& 0x7f).toUInt8
      let value := value >>> 7
      if value ≠ 0 then
        (byte ||| 0x80) :: appendVarintGroups groups value
      else
        [byte]

def appendVarint (value : UInt64) : List UInt8 :=
  appendVarintGroups 10 value

theorem toNat_low_group
    (value : UInt64) :
    (value &&& 0x7f).toUInt8.toNat = value.toNat % 128 := by
  have low : (value &&& 0x7f).toNat = value.toNat % 128 := by
    rw [UInt64.toNat_and]
    exact Nat.and_two_pow_sub_one_eq_mod value.toNat 7
  rw [UInt64.toNat_toUInt8, low]
  omega

theorem toNat_shift_group
    (value : UInt64) :
    (value >>> 7).toNat = value.toNat / 128 := by
  rw [UInt64.toNat_shiftRight]
  exact Nat.shiftRight_eq_div_pow _ 7

/-- The high bit is added to a group. -/
theorem toNat_or_0x80
    {byte : UInt8}
    (small : byte.toNat < 128) :
    (byte ||| 0x80).toNat = byte.toNat + 128 := by
  have bound : byte.toNat < 2 ^ 7 := small
  have joined := Nat.two_pow_add_eq_or_of_lt bound 1
  rw [UInt8.toNat_or, Nat.or_comm, Nat.add_comm]
  exact joined.symm

/-- The writer emits the shortest encoding. -/
theorem appendVarintGroups_eq
    (groups : Nat)
    (value : UInt64) :
    appendVarintGroups groups value = varintGroups groups value.toNat := by
  induction groups generalizing value with
  | zero => rfl
  | succ groups inductionHypothesis =>
      rw [appendVarintGroups, varintGroups]
      have low := toNat_low_group value
      have high := toNat_shift_group value
      by_cases small : value.toNat < 128
      · have last : ¬ value >>> 7 ≠ 0 := by
          rw [not_not, ← UInt64.toNat_inj, high, UInt64.toNat_zero]
          omega
        rw [if_neg last, if_pos small]
        refine congrArg (fun byte => [byte]) (UInt8.toNat_inj.mp ?_)
        rw [low, UInt8.toNat_ofNat']
        omega
      · have more : value >>> 7 ≠ 0 := by
          rw [ne_eq, ← UInt64.toNat_inj, high, UInt64.toNat_zero]
          omega
        rw [if_pos more, if_neg small, inductionHypothesis, high]
        refine congrArg (fun byte => byte :: _) (UInt8.toNat_inj.mp ?_)
        rw [toNat_or_0x80 (by omega), low, UInt8.toNat_ofNat']
        omega

theorem appendVarint_eq
    (value : UInt64) :
    appendVarint value = varint value.toNat :=
  appendVarintGroups_eq 10 value

end Writer

section Canonical

/-- A reader that accepts exactly what the writer emits. -/
structure ReadsAppendVarint (reader : Cursor Exception Nat) : Prop where
  reads :
    ∀ (value : UInt64) rest,
      reader (appendVarint value ++ rest) = .ok (value.toNat, rest)
  accepts :
    ∀ bytes found rest,
      reader bytes = .ok (found, rest) ↔
        ∃ value : UInt64,
          found = value.toNat ∧ bytes = appendVarint value ++ rest

/-- Numbers below 2^64 are those of the words. -/
theorem exists_word_iff
    {value : Nat}
    {bytes rest : List UInt8} :
    (∃ word : UInt64,
      value = word.toNat ∧ bytes = appendVarint word ++ rest) ↔
      value < 2 ^ 64 ∧ bytes = varint value ++ rest := by
  constructor
  · rintro ⟨word, rfl, rfl⟩
    exact ⟨word.toNat_lt, by rw [appendVarint_eq]⟩
  · rintro ⟨fits, rfl⟩
    have word : (UInt64.ofNat value).toNat = value := by
      rw [UInt64.toNat_ofNat']
      exact Nat.mod_eq_of_lt fits
    exact ⟨UInt64.ofNat value, word.symm, by rw [appendVarint_eq, word]⟩

/-- The cursors that compare lengths accept what the writer emits. -/
theorem readsAppendVarint_takeShortest
    (truncated overflow tooLong failure : Exception) :
    ReadsAppendVarint
      (takeShortest (takeVarint truncated overflow tooLong) failure) where
  reads := fun value rest => by
    rw [takeShortest_takeVarint_eq_ok, appendVarint_eq]
    exact ⟨value.toNat_lt, rfl⟩
  accepts := fun bytes found rest => by
    rw [takeShortest_takeVarint_eq_ok, exists_word_iff]

end Canonical

section Address

/-- What the address reader accepts from an index on. -/
theorem readCanonicalVarintFrom_eq_some
    {bytes : List UInt8}
    {budget index shift value found consumed : Nat}
    (position : shift + 7 * budget = 70)
    (below : value < 2 ^ shift) :
    readCanonicalVarintFrom bytes budget index shift value =
        some (found, consumed) ↔
      ∃ groups rest,
        bytes.drop index = groups ++ rest ∧
        IsGroups groups ∧
        groups.length ≤ budget ∧
        found = value + 2 ^ shift * groupsValue groups ∧
        found < 2 ^ 64 ∧
        consumed = index + groups.length ∧
        (consumed ≤ 1 ∨ groups.getLast? ≠ some 0) := by
  induction budget generalizing index shift value with
  | zero =>
      rw [readCanonicalVarintFrom]
      refine iff_of_false (by simp) ?_
      rintro ⟨groups, _, _, isGroups, none, _⟩
      have := isGroups.length_pos
      omega
  | succ budget inductionHypothesis =>
      rw [readCanonicalVarintFrom]
      cases here : bytes[index]? with
      | none =>
          refine iff_of_false (by simp) ?_
          rintro ⟨groups, rest, ahead, isGroups, _⟩
          have empty : bytes.drop index = [] := by
            rw [List.drop_eq_nil_iff]
            exact List.getElem?_eq_none_iff.mp here
          rw [empty] at ahead
          have := isGroups.length_pos
          rw [List.nil_eq_append_iff.mp ahead |>.1] at this
          cases this
      | some byte =>
          have ahead : bytes.drop index = byte :: bytes.drop (index + 1) := by
            obtain ⟨inside, same⟩ := List.getElem?_eq_some_iff.mp here
            rw [List.drop_eq_getElem_cons inside, same]
          have digit := Nat.mod_lt byte.toNat (show 128 > 0 by norm_num)
          have raised :
              value + 2 ^ shift * (byte.toNat % 128) < 2 ^ (shift + 7) := by
            rw [Nat.pow_add]
            nlinarith [Nat.two_pow_pos shift]
          simp only [and_0x7f_toNat, and_0x80_eq_zero_iff,
            or_shiftLeft_eq_add below]
          rw [ahead]
          by_cases outOfRange :
              shift ≥ 64 ∨ shift = 63 ∧ byte.toNat % 128 > 1
          · rw [if_pos outOfRange]
            refine iff_of_false (by simp) ?_
            rintro ⟨groups, rest, same, isGroups, short, rfl, fits, _⟩
            obtain ⟨rfl, large⟩ : shift = 63 ∧ byte.toNat % 128 > 1 := by
              omega
            cases isGroups with
            | last _ =>
                cases same
                simp only [groupsValue] at fits
                omega
            | more _ others =>
                have := others.length_pos
                simp only [List.length_cons] at short
                omega
          · rw [if_neg outOfRange]
            by_cases last : byte.toNat < 128
            · rw [if_pos last]
              constructor
              · intro returned
                split_ifs at returned with padded
                cases returned
                have few := @value_lt_of_few_groups (budget + 1) shift value
                  [byte] position below
                have spelled : groupsValue [byte] = byte.toNat % 128 := by
                  rw [groupsValue, groupsValue]
                  omega
                refine ⟨[byte], bytes.drop (index + 1), rfl, .last last,
                  by simp, by rw [spelled], ?_, rfl, ?_⟩
                · by_cases final : shift = 63
                  · subst final
                    omega
                  · rw [← spelled]
                    exact few (by rw [List.length_singleton]; omega)
                · rw [List.getLast?_singleton, or_iff_not_imp_left]
                  rintro long ⟨⟩
                  exact padded ⟨by omega, rfl⟩
              · rintro ⟨groups, rest, same, isGroups, short, rfl, fits, rfl,
                  minimal⟩
                cases isGroups with
                | last _ =>
                    cases same
                    have kept :
                        ¬ (index + 1 > 1 ∧ byte.toNat % 128 = 0) := by
                      rintro ⟨long, zero⟩
                      rcases minimal with short | nonzero
                      · simp only [List.length_singleton] at short
                        omega
                      · refine nonzero (congrArg some
                          (UInt8.toNat_inj.mp ?_))
                        simp only [List.getLast_singleton, UInt8.toNat_zero]
                        omega
                    rw [if_neg kept]
                    simp [groupsValue]
                | more large _ =>
                    obtain ⟨rfl, _⟩ := List.cons.inj same
                    omega
            · rw [if_neg last, inductionHypothesis (by omega) raised]
              constructor
              · rintro ⟨groups, rest, same, isGroups, short, rfl, fits, rfl,
                  minimal⟩
                have some := isGroups.length_pos
                refine ⟨byte :: groups, rest, by rw [same]; rfl,
                  .more (by omega) isGroups, by simpa using short, ?_, fits,
                  ?_, ?_⟩
                · rw [groupsValue, Nat.pow_add]
                  ring
                · rw [List.length_cons]
                  omega
                · rw [List.getLast?_cons_of_ne_nil
                    (List.length_pos_iff.mp some)]
                  exact minimal
              · rintro ⟨groups, rest, whole, isGroups, short, rfl, fits, rfl,
                  minimal⟩
                cases isGroups with
                | last small =>
                    cases whole
                    exact absurd small last
                | @more _ others _ isGroups =>
                    have some := isGroups.length_pos
                    obtain ⟨rfl, same⟩ := List.cons.inj whole
                    rw [List.getLast?_cons_of_ne_nil
                      (List.length_pos_iff.mp some)] at minimal
                    refine ⟨others, rest, same, isGroups, by simpa using short,
                      ?_, fits, ?_, minimal⟩
                    · rw [groupsValue, Nat.pow_add]
                      ring
                    · rw [List.length_cons]
                      omega

/-- The address reader accepts exactly what the writer emits. -/
theorem readCanonicalVarint_eq_some
    {bytes : List UInt8}
    {found consumed : Nat} :
    readCanonicalVarint bytes = some (found, consumed) ↔
      found < 2 ^ 64 ∧ consumed = (varint found).length ∧
        ∃ rest, bytes = varint found ++ rest := by
  have read := @readCanonicalVarintFrom_eq_some bytes 10 0 0 0 found consumed
    (by norm_num) (by norm_num)
  rw [readCanonicalVarint, read]
  simp only [List.drop_zero, Nat.zero_add, Nat.pow_zero, Nat.one_mul]
  constructor
  · rintro ⟨groups, rest, rfl, isGroups, short, rfl, fits, rfl, minimal⟩
    have some := isGroups.length_pos
    have canonical : groups = varint (groupsValue groups) :=
      (eq_varintGroups_iff isGroups short).mpr
        (minimal.imp_left fun single => by omega)
    exact ⟨fits, by rw [← canonical], rest, by rw [← canonical]⟩
  · rintro ⟨fits, rfl, rest, rfl⟩
    obtain ⟨isGroups, spelled, short⟩ := isGroups_varint fits
    refine ⟨varint found, rest, rfl, isGroups, short, spelled.symm, fits, rfl,
      ?_⟩
    have minimal := (eq_varintGroups_iff isGroups short).mp (by
      rw [spelled]
      rfl)
    exact minimal.imp_left fun single => by omega

end Address

section Words

/-- The group of a byte as a word. -/
def varintPart (byte : UInt8) : UInt64 :=
  (byte &&& 0x7f).toUInt64

theorem toNat_varintPart
    (byte : UInt8) :
    (varintPart byte).toNat = (byte &&& 0x7f).toNat := by
  rw [varintPart, UInt8.toNat_toUInt64]

/-- Shifting a group is undefined by 64 or more, and must not drop bits. -/
def ShiftLoses (shift : Nat) (part : UInt64) : Prop :=
  64 ≤ shift ∨ 2 ^ 64 ≤ part.toNat * 2 ^ shift

instance (shift : Nat) (part : UInt64) : Decidable (ShiftLoses shift part) :=
  inferInstanceAs (Decidable (_ ∨ _))

/--
The reader of the cursors over words, which fails with an exception of its own
where a shift is undefined or loses bits.
-/
def takeVarintWordGroups
    {ε : Type}
    (truncated overflow tooLong lossy : ε) :
    Nat → Nat → UInt64 → Cursor ε UInt64
  | 0, _, _ => throw tooLong
  | groups + 1, shift, value => do
      let byte ← takeByte truncated
      if shift = 63 ∧ byte &&& 0x7e ≠ 0 then
        throw overflow
      else if ShiftLoses shift (varintPart byte) then
        throw lossy
      else if byte &&& 0x80 = 0 then
        return value ||| varintPart byte <<< UInt64.ofNat shift
      else
        takeVarintWordGroups truncated overflow tooLong lossy groups
          (shift + 7) (value ||| varintPart byte <<< UInt64.ofNat shift)

/-- The address reader over words; no result where a shift loses bits. -/
def readCanonicalVarintWordFrom
    (bytes : List UInt8) :
    Nat → Nat → Nat → UInt64 → Option (Option (UInt64 × Nat))
  | 0, _, _, _ => some none
  | budget + 1, index, shift, value =>
      match bytes[index]? with
      | none => some none
      | some byte =>
          if shift ≥ 64 ∨ shift = 63 ∧ varintPart byte > 1 then
            some none
          else if ShiftLoses shift (varintPart byte) then
            none
          else
            let value := value ||| varintPart byte <<< UInt64.ofNat shift
            if byte &&& 0x80 = 0 then
              if index + 1 > 1 ∧ varintPart byte = 0 then some none
              else some (some (value, index + 1))
            else
              readCanonicalVarintWordFrom bytes budget (index + 1) (shift + 7)
                value

/-- Within ten groups a shift loses nothing once the tenth is checked. -/
theorem not_shiftLoses
    {groups shift : Nat}
    {byte : UInt8}
    (position : shift + 7 * (groups + 1) = 70)
    (checked : shift = 63 → (byte &&& 0x7f).toNat < 2) :
    ¬ ShiftLoses shift (varintPart byte) := by
  have part := toNat_varintPart byte
  have small := and_0x7f_toNat byte
  rintro (far | lost)
  · omega
  · by_cases last : shift = 63
    · have := checked last
      subst last
      omega
    · have bounded : 2 ^ shift ≤ 2 ^ 56 :=
        Nat.pow_le_pow_right (by norm_num) (by omega)
      nlinarith [Nat.mod_lt byte.toNat (show 128 > 0 by norm_num)]

/-- A lossless step over words is the step over numbers. -/
theorem toNat_or_shiftLeft
    {shift : Nat}
    {byte : UInt8}
    (value : UInt64)
    (lossless : ¬ ShiftLoses shift (varintPart byte)) :
    (value ||| varintPart byte <<< UInt64.ofNat shift).toNat =
      value.toNat ||| (byte &&& 0x7f).toNat <<< shift := by
  unfold ShiftLoses at lossless
  push Not at lossless
  obtain ⟨near, fits⟩ := lossless
  have amount : (UInt64.ofNat shift).toNat % 64 = shift := by
    rw [UInt64.toNat_ofNat']
    omega
  rw [UInt64.toNat_or, UInt64.toNat_shiftLeft, amount, toNat_varintPart,
    Nat.shiftLeft_eq]
  rw [toNat_varintPart] at fits
  rw [Nat.mod_eq_of_lt fits]

/-- Over words the cursors read what they read over numbers. -/
theorem takeVarintWordGroups_eq
    {ε : Type}
    (truncated overflow tooLong lossy : ε)
    {groups shift : Nat}
    (position : shift + 7 * groups = 70)
    (value : UInt64)
    (below : value.toNat < 2 ^ shift)
    (bytes : List UInt8) :
    takeVarintWordGroups truncated overflow tooLong lossy groups shift value
        bytes =
      (takeVarintGroups truncated overflow tooLong groups shift value.toNat
        bytes).map fun read => (UInt64.ofNat read.1, read.2) := by
  induction groups generalizing shift value bytes with
  | zero => rfl
  | succ groups inductionHypothesis =>
      cases bytes with
      | nil => rfl
      | cons byte rest =>
          have read :
              takeByte truncated (byte :: rest) = .ok (byte, rest) := rfl
          rw [takeVarintWordGroups, takeVarintGroups,
            cursor_bind_of_ok read, cursor_bind_of_ok read]
          by_cases outOfRange : shift = 63 ∧ byte &&& 0x7e ≠ 0
          · rw [if_pos outOfRange, if_pos outOfRange]
            rfl
          · have lossless : ¬ ShiftLoses shift (varintPart byte) := by
              refine not_shiftLoses position fun last => ?_
              rw [and_0x7f_toNat, ← and_0x7e_eq_zero_iff]
              by_contra large
              exact outOfRange ⟨last, large⟩
            have step := toNat_or_shiftLeft value lossless
            rw [if_neg outOfRange, if_neg outOfRange, if_neg lossless]
            by_cases final : byte &&& 0x80 = 0
            · rw [if_pos final, if_pos final, ← step]
              generalize value ||| varintPart byte <<< UInt64.ofNat shift =
                joined
              change Except.ok (joined, rest) =
                Except.ok (UInt64.ofNat joined.toNat, rest)
              rw [UInt64.ofNat_toNat]
            · rw [if_neg final, if_neg final, ← step]
              refine inductionHypothesis (by omega) _ ?_ rest
              rw [step, and_0x7f_toNat, or_shiftLeft_eq_add below, Nat.pow_add]
              have := Nat.mod_lt byte.toNat (show 128 > 0 by norm_num)
              nlinarith [Nat.two_pow_pos shift]

/-- Over words the address reader reads what it reads over numbers. -/
theorem readCanonicalVarintWordFrom_eq
    (bytes : List UInt8)
    {budget index shift : Nat}
    (position : shift + 7 * budget = 70)
    (value : UInt64)
    (below : value.toNat < 2 ^ shift) :
    readCanonicalVarintWordFrom bytes budget index shift value =
      some ((readCanonicalVarintFrom bytes budget index shift
        value.toNat).map fun read => (UInt64.ofNat read.1, read.2)) := by
  induction budget generalizing index shift value with
  | zero => rfl
  | succ budget inductionHypothesis =>
      rw [readCanonicalVarintWordFrom, readCanonicalVarintFrom]
      cases bytes[index]? with
      | none => rfl
      | some byte =>
          have part := toNat_varintPart byte
          have large : varintPart byte > 1 ↔ (byte &&& 0x7f).toNat > 1 := by
            rw [gt_iff_lt, UInt64.lt_iff_toNat_lt, part, UInt64.toNat_one]
          have zero : varintPart byte = 0 ↔ (byte &&& 0x7f).toNat = 0 := by
            rw [← UInt64.toNat_inj, part, UInt64.toNat_zero]
          simp only [large, zero]
          by_cases outOfRange :
              shift ≥ 64 ∨ shift = 63 ∧ (byte &&& 0x7f).toNat > 1
          · rw [if_pos outOfRange, if_pos outOfRange]
            rfl
          · have lossless : ¬ ShiftLoses shift (varintPart byte) :=
              not_shiftLoses position fun last => by omega
            have step := toNat_or_shiftLeft value lossless
            rw [if_neg outOfRange, if_neg outOfRange, if_neg lossless]
            by_cases final : byte &&& 0x80 = 0
            · rw [if_pos final, if_pos final, ← step]
              generalize value ||| varintPart byte <<< UInt64.ofNat shift =
                joined
              split_ifs
              · rfl
              · rw [Option.map_some, UInt64.ofNat_toNat]
            · rw [if_neg final, if_neg final, ← step]
              refine inductionHypothesis (by omega) _ ?_
              rw [step, and_0x7f_toNat, or_shiftLeft_eq_add below, Nat.pow_add]
              have := Nat.mod_lt byte.toNat (show 128 > 0 by norm_num)
              nlinarith [Nat.two_pow_pos shift]

end Words

/--
The canonical readers accept exactly what the writer emits, with the same value and
the same length; the reader of block headers reads that too and otherwise only
longer encodings; and no reader loses bits of a 64-bit word.
-/
theorem varintReaders_agree :
    (∀ reader ∈ [readContextVarint, MinerTx.readVarint, ProofData.readVarint,
        readCount],
      ReadsAppendVarint reader) ∧
    (∀ bytes found consumed,
      readCanonicalVarint bytes = some (found, consumed) ↔
        ∃ value : UInt64,
          found = value.toNat ∧ consumed = (appendVarint value).length ∧
            ∃ rest, bytes = appendVarint value ++ rest) ∧
    (∀ (value : UInt64) rest,
      MiningHeader.readVarint (appendVarint value ++ rest) =
        .ok (value.toNat, rest)) ∧
    (∀ bytes found rest,
      MiningHeader.readVarint bytes = .ok (found, rest) →
        ∃ value : UInt64,
          found = value.toNat ∧
            ∃ consumed,
              bytes = consumed ++ rest ∧ IsGroups consumed ∧
                groupsValue consumed = found ∧ consumed.length ≤ 10 ∧
                (consumed = appendVarint value ∨
                  (appendVarint value).length < consumed.length)) ∧
    (∀ (truncated overflow tooLong lossy : Exception) bytes,
      takeVarintWordGroups truncated overflow tooLong lossy 10 0 0 bytes =
        (takeVarint truncated overflow tooLong bytes).map fun read =>
          (UInt64.ofNat read.1, read.2)) ∧
    ∀ bytes,
      readCanonicalVarintWordFrom bytes 10 0 0 0 =
        some ((readCanonicalVarint bytes).map fun read =>
          (UInt64.ofNat read.1, read.2)) := by
  refine ⟨?_, ?_, ?_, ?_, ?_, ?_⟩
  · intro reader member
    simp only [List.mem_cons, List.not_mem_nil, or_false] at member
    rcases member with rfl | rfl | rfl | rfl <;>
      exact readsAppendVarint_takeShortest _ _ _ _
  · intro bytes found consumed
    rw [readCanonicalVarint_eq_some]
    constructor
    · rintro ⟨fits, rfl, rest, whole⟩
      obtain ⟨value, rfl, same⟩ := exists_word_iff.mpr ⟨fits, whole⟩
      exact ⟨value, rfl, by rw [appendVarint_eq], rest, same⟩
    · rintro ⟨value, rfl, rfl, rest, rfl⟩
      exact ⟨value.toNat_lt, by rw [appendVarint_eq], rest, by
        rw [appendVarint_eq]⟩
  · intro value rest
    rw [appendVarint_eq]
    exact takeVarint_varint value.toNat_lt rest
  · intro bytes found rest read
    obtain ⟨consumed, rfl, isGroups, short, rfl, fits⟩ :=
      takeVarint_eq_ok.mp read
    obtain ⟨value, same, _⟩ :=
      (@exists_word_iff _ (varint (groupsValue consumed)) []).mpr
        ⟨fits, by rw [List.append_nil]⟩
    obtain ⟨least, unique⟩ := varintGroups_shortest isGroups short
    refine ⟨value, same, consumed, rfl, isGroups, rfl, short, ?_⟩
    rw [appendVarint_eq, ← same]
    rcases Nat.lt_or_eq_of_le least with longer | equal
    · exact .inr longer
    · exact .inl (unique.mp equal)
  · intro truncated overflow tooLong lossy bytes
    exact takeVarintWordGroups_eq truncated overflow tooLong lossy
      (by norm_num) 0 (by decide) bytes
  · intro bytes
    exact readCanonicalVarintWordFrom_eq bytes (by norm_num) 0 (by decide)

/-- Two bytes spell 300; a zero in two bytes is read by the lenient reader alone. -/
theorem varintReaders_agree_sample :
    appendVarint 300 = [0xac, 0x02] ∧
      MinerTx.readVarint [0xac, 0x02, 7] = .ok (300, [7]) ∧
      readCanonicalVarint [0xac, 0x02, 7] = some (300, 2) ∧
      (∀ found rest, readCount [0x80, 0, 7] ≠ .ok (found, rest)) ∧
      MiningHeader.readVarint [0x80, 0, 7] = .ok (0, [7]) ∧
      ∃ consumed, [0x80, 0, 7] = consumed ++ [7] ∧ groupsValue consumed = 0 := by
  obtain ⟨strict, canonical, _, lenient, _⟩ := varintReaders_agree
  have bytes : appendVarint 300 = [0xac, 0x02] := by decide +kernel
  have padded : MiningHeader.readVarint [0x80, 0, 7] = .ok (0, [7]) := by
    decide +kernel
  obtain ⟨value, _, consumed, split, _, groups, _⟩ := lenient _ _ _ padded
  refine ⟨bytes, ?_, ?_, ?_, padded, consumed, split, groups⟩
  · have read := (strict MinerTx.readVarint (by simp)).reads 300 [7]
    rwa [bytes] at read
  · exact (canonical _ _ _).mpr
      ⟨300, rfl, by rw [bytes]; rfl, [7], by rw [bytes]; rfl⟩
  · intro found rest read
    have refused : (readCount [0x80, 0, 7]).toOption = none := by
      decide +kernel
    rw [read] at refused
    cases refused

end ZanoP2pool
