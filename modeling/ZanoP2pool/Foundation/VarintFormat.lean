import ZanoP2pool.Foundation.ReaderSimulation

namespace Foundation

/-!
# Encodings of variable-length numbers

An encoding is a list of groups of seven bits of which only the last has its high
bit clear.  The reader accepts exactly the encodings of at most ten bytes whose
value has at most 64 bits, and the shortest encoding of a value is unique.
-/

/-- The bytes of one number: all but the last have their high bit set. -/
inductive IsGroups : List UInt8 → Prop where
  | last
      {byte : UInt8} :
      byte.toNat < 128 →
      IsGroups [byte]
  | more
      {byte : UInt8}
      {rest : List UInt8} :
      128 ≤ byte.toNat →
      IsGroups rest →
      IsGroups (byte :: rest)

/-- The number that groups of seven bits spell, least significant first. -/
def groupsValue : List UInt8 → Nat
  | [] => 0
  | byte :: rest => byte.toNat % 128 + 128 * groupsValue rest

theorem IsGroups.length_pos
    {bytes : List UInt8}
    (groups : IsGroups bytes) :
    0 < bytes.length := by
  cases groups <;> simp

theorem groupsValue_lt
    (bytes : List UInt8) :
    groupsValue bytes < 128 ^ bytes.length := by
  induction bytes with
  | nil => simp [groupsValue]
  | cons byte rest inductionHypothesis =>
      rw [groupsValue, List.length_cons, Nat.pow_succ]
      omega

section Bytes

theorem and_0x7f_toNat
    (byte : UInt8) :
    (byte &&& 0x7f).toNat = byte.toNat % 128 := by
  rw [UInt8.toNat_and]
  exact Nat.and_two_pow_sub_one_eq_mod byte.toNat 7

theorem and_0x80_eq_zero_iff
    (byte : UInt8) :
    byte &&& 0x80 = 0 ↔ byte.toNat < 128 := by
  have all :
      ∀ byte : UInt8,
        decide (byte &&& 0x80 = 0) = decide (byte.toNat < 128) := by
    decide +kernel
  simpa using all byte

theorem and_0x7e_eq_zero_iff
    (byte : UInt8) :
    byte &&& 0x7e = 0 ↔ byte.toNat % 128 < 2 := by
  have all :
      ∀ byte : UInt8,
        decide (byte &&& 0x7e = 0) = decide (byte.toNat % 128 < 2) := by
    decide +kernel
  simpa using all byte

/-- A group is put above the groups read so far. -/
theorem or_shiftLeft_eq_add
    {value shift : Nat}
    (below : value < 2 ^ shift)
    (group : Nat) :
    value ||| group <<< shift = value + 2 ^ shift * group := by
  rw [Nat.or_comm, ← Nat.shiftLeft_add_eq_or_of_lt below, Nat.shiftLeft_eq,
    Nat.add_comm, Nat.mul_comm]

end Bytes

section Reader

variable {ε : Type}
variable {truncated overflow tooLong : ε}

/-- Groups that end before the tenth stay below the limit of 64 bits. -/
theorem value_lt_of_few_groups
    {groups shift value : Nat}
    {consumed : List UInt8}
    (position : shift + 7 * groups = 70)
    (below : value < 2 ^ shift)
    (few : consumed.length < groups) :
    value + 2 ^ shift * groupsValue consumed < 2 ^ 64 := by
  have bounded := groupsValue_lt consumed
  have spelled : 128 ^ consumed.length = 2 ^ (7 * consumed.length) := by
    rw [Nat.pow_mul]
  rw [spelled] at bounded
  calc value + 2 ^ shift * groupsValue consumed
      < 2 ^ shift + 2 ^ shift * groupsValue consumed := by omega
    _ = 2 ^ shift * (groupsValue consumed + 1) := by ring
    _ ≤ 2 ^ shift * 2 ^ (7 * consumed.length) :=
        Nat.mul_le_mul_left _ (by omega)
    _ = 2 ^ (shift + 7 * consumed.length) := (Nat.pow_add ..).symm
    _ ≤ 2 ^ 64 := Nat.pow_le_pow_right (by norm_num) (by omega)

/-- What the reader accepts once some groups have been read. -/
theorem takeVarintGroups_eq_ok
    {groups shift value found : Nat}
    {bytes rest : List UInt8}
    (position : shift + 7 * groups = 70)
    (below : value < 2 ^ shift) :
    takeVarintGroups truncated overflow tooLong groups shift value bytes =
        .ok (found, rest) ↔
      ∃ consumed,
        bytes = consumed ++ rest ∧
        IsGroups consumed ∧
        consumed.length ≤ groups ∧
        found = value + 2 ^ shift * groupsValue consumed ∧
        found < 2 ^ 64 := by
  induction groups generalizing shift value bytes with
  | zero =>
      refine iff_of_false cursor_throw_ne_ok ?_
      rintro ⟨consumed, _, isGroups, none, _⟩
      have := isGroups.length_pos
      omega
  | succ groups inductionHypothesis =>
      rw [takeVarintGroups, cursor_bind_eq_ok]
      simp only [takeByte_eq_ok, cursor_guard_eq_ok, and_0x80_eq_zero_iff,
        and_0x7f_toNat, ne_eq, and_0x7e_eq_zero_iff, or_shiftLeft_eq_add below]
      constructor
      · rintro ⟨byte, middle, rfl, inRange, read⟩
        by_cases last : byte.toNat < 128
        · rw [if_pos last, cursor_pure_eq_ok] at read
          obtain ⟨rfl, rfl⟩ := read
          refine ⟨[byte], rfl, .last last, by simp, ?_, ?_⟩
          · simp [groupsValue]
          · by_cases few : shift = 63
            · subst few
              have digit : byte.toNat % 128 < 2 := by
                by_contra large
                exact inRange ⟨rfl, large⟩
              omega
            · have limited := @value_lt_of_few_groups (groups + 1) shift value
                [byte] position below (by simp; omega)
              simpa [groupsValue] using limited
        · rw [if_neg last] at read
          have raised : value + 2 ^ shift * (byte.toNat % 128) <
              2 ^ (shift + 7) := by
            rw [Nat.pow_add]
            have := Nat.mod_lt byte.toNat (show 128 > 0 by norm_num)
            nlinarith [Nat.two_pow_pos shift]
          obtain ⟨consumed, rfl, isGroups, short, rfl, limited⟩ :=
            (inductionHypothesis (by omega) raised).mp read
          refine ⟨byte :: consumed, rfl, .more (by omega) isGroups,
            by simpa using short, ?_, limited⟩
          rw [groupsValue, Nat.pow_add]
          ring
      · rintro ⟨consumed, rfl, isGroups, short, rfl, limited⟩
        cases isGroups with
        | @last byte small =>
            refine ⟨byte, rest, rfl, ?_, ?_⟩
            · rintro ⟨rfl, large⟩
              simp only [groupsValue] at limited
              omega
            · rw [if_pos small, cursor_pure_eq_ok]
              simp [groupsValue]
        | @more byte others large isGroups =>
            have raised : value + 2 ^ shift * (byte.toNat % 128) <
                2 ^ (shift + 7) := by
              rw [Nat.pow_add]
              have := Nat.mod_lt byte.toNat (show 128 > 0 by norm_num)
              nlinarith [Nat.two_pow_pos shift]
            refine ⟨byte, others ++ rest, rfl, ?_, ?_⟩
            · rintro ⟨rfl, _⟩
              have some := isGroups.length_pos
              simp only [List.length_cons] at short
              omega
            · rw [if_neg (by omega)]
              refine (inductionHypothesis (by omega) raised).mpr
                ⟨others, rfl, isGroups, by simpa using short, ?_, limited⟩
              rw [groupsValue, Nat.pow_add]
              ring

/-- The reader accepts the encodings of at most ten bytes and 64 bits. -/
theorem takeVarint_eq_ok
    {bytes rest : List UInt8}
    {value : Nat} :
    takeVarint truncated overflow tooLong bytes = .ok (value, rest) ↔
      ∃ consumed,
        bytes = consumed ++ rest ∧
        IsGroups consumed ∧
        consumed.length ≤ 10 ∧
        value = groupsValue consumed ∧
        value < 2 ^ 64 := by
  have read := @takeVarintGroups_eq_ok ε truncated overflow tooLong 10 0 0
    value bytes rest (by norm_num) (by norm_num)
  simpa [takeVarint] using read

end Reader

section Shortest

/-- The groups of a number that has few enough of them spell it. -/
theorem isGroups_varintGroups
    {groups value : Nat}
    (some : groups ≠ 0)
    (fits : value < 128 ^ groups) :
    IsGroups (varintGroups groups value) ∧
      groupsValue (varintGroups groups value) = value ∧
      (varintGroups groups value).length ≤ groups := by
  induction groups generalizing value with
  | zero => exact absurd rfl some
  | succ groups inductionHypothesis =>
      rw [varintGroups]
      by_cases small : value < 128
      · rw [if_pos small]
        have byte : (UInt8.ofNat value).toNat = value := by
          rw [UInt8.toNat_ofNat']
          exact Nat.mod_eq_of_lt (by omega)
        refine ⟨.last (by omega), ?_, by simp⟩
        rw [groupsValue, groupsValue, byte]
        omega
      · rw [if_neg small]
        have byte : (UInt8.ofNat (value % 128 + 128)).toNat =
            value % 128 + 128 := by
          rw [UInt8.toNat_ofNat']
          exact Nat.mod_eq_of_lt (by omega)
        have remaining : groups ≠ 0 := by
          rintro rfl
          simp only [Nat.zero_add, Nat.pow_one] at fits
          exact small fits
        obtain ⟨isGroups, spelled, short⟩ :=
          inductionHypothesis remaining (Nat.div_lt_of_lt_mul (by
            rwa [Nat.pow_succ, Nat.mul_comm] at fits))
        refine ⟨.more (by omega) isGroups, ?_, by simpa using short⟩
        rw [groupsValue, spelled, byte]
        omega

/-- No encoding is shorter than the shortest, and only one is as short. -/
theorem varintGroups_shortest
    {groups : Nat}
    {bytes : List UInt8}
    (isGroups : IsGroups bytes)
    (short : bytes.length ≤ groups) :
    (varintGroups groups (groupsValue bytes)).length ≤ bytes.length ∧
      ((varintGroups groups (groupsValue bytes)).length = bytes.length ↔
        bytes = varintGroups groups (groupsValue bytes)) := by
  induction isGroups generalizing groups with
  | @last byte small =>
      obtain ⟨remaining, rfl⟩ :=
        Nat.exists_eq_add_of_le' (show 1 ≤ groups by simpa using short)
      have value : groupsValue [byte] = byte.toNat := by
        rw [groupsValue, groupsValue]
        omega
      rw [value, varintGroups, if_pos small, UInt8.ofNat_toNat]
      simp
  | @more byte rest large isGroups inductionHypothesis =>
      obtain ⟨remaining, rfl⟩ :=
        Nat.exists_eq_add_of_le' (show 1 ≤ groups by
          simp only [List.length_cons] at short
          omega)
      have some := isGroups.length_pos
      have bound := byte.toNat_lt
      obtain ⟨le, unique⟩ :=
        @inductionHypothesis remaining (by simpa using short)
      rw [groupsValue, varintGroups]
      by_cases small : byte.toNat % 128 + 128 * groupsValue rest < 128
      · rw [if_pos small]
        refine ⟨by simp, iff_of_false ?_ ?_⟩
        · simp only [List.length_cons, List.length_nil]
          omega
        · intro same
          have lengths := congrArg List.length same
          simp only [List.length_cons, List.length_nil] at lengths
          omega
      · rw [if_neg small]
        have digit :
            (byte.toNat % 128 + 128 * groupsValue rest) % 128 + 128 =
              byte.toNat := by
          omega
        have others :
            (byte.toNat % 128 + 128 * groupsValue rest) / 128 =
              groupsValue rest := by
          omega
        rw [digit, others, UInt8.ofNat_toNat]
        refine ⟨by simpa using le, ?_⟩
        simpa using unique

/-- Groups whose last byte is not zero spell a number that is not zero. -/
theorem groupsValue_ne_zero
    {bytes : List UInt8}
    (isGroups : IsGroups bytes)
    (nonzero : bytes.getLast? ≠ some 0) :
    groupsValue bytes ≠ 0 := by
  induction isGroups with
  | @last byte small =>
      rw [List.getLast?_singleton] at nonzero
      intro zero
      simp only [groupsValue] at zero
      refine nonzero (congrArg some (UInt8.toNat_inj.mp ?_))
      rw [UInt8.toNat_zero]
      omega
  | @more byte rest large isGroups inductionHypothesis =>
      have some := isGroups.length_pos
      rw [List.getLast?_cons_of_ne_nil (List.length_pos_iff.mp some)] at nonzero
      have higher := inductionHypothesis nonzero
      rw [groupsValue]
      omega

/-- An encoding is the shortest unless a needless group ends it. -/
theorem eq_varintGroups_iff
    {groups : Nat}
    {bytes : List UInt8}
    (isGroups : IsGroups bytes)
    (short : bytes.length ≤ groups) :
    bytes = varintGroups groups (groupsValue bytes) ↔
      bytes.length = 1 ∨ bytes.getLast? ≠ some 0 := by
  induction isGroups generalizing groups with
  | @last byte small =>
      refine iff_of_true ?_ (.inl rfl)
      exact (varintGroups_shortest (.last small) short).2.mp
        (le_antisymm (varintGroups_shortest (.last small) short).1
          (isGroups_varintGroups (by
            rintro rfl
            cases short) ((groupsValue_lt [byte]).trans_le
              (Nat.pow_le_pow_right (by norm_num) short))).1.length_pos)
  | @more byte rest large isGroups inductionHypothesis =>
      obtain ⟨remaining, rfl⟩ :=
        Nat.exists_eq_add_of_le' (show 1 ≤ groups by
          simp only [List.length_cons] at short
          omega)
      have some := isGroups.length_pos
      have bound := byte.toNat_lt
      have canonical := @inductionHypothesis remaining (by simpa using short)
      have last : (byte :: rest).getLast? = rest.getLast? :=
        List.getLast?_cons_of_ne_nil (List.length_pos_iff.mp some)
      have long : (byte :: rest).length ≠ 1 := by
        rw [List.length_cons]
        omega
      rw [last, or_iff_right long, groupsValue, varintGroups]
      by_cases small : byte.toNat % 128 + 128 * groupsValue rest < 128
      · rw [if_pos small]
        refine iff_of_false ?_ ?_
        · intro same
          have lengths := congrArg List.length same
          simp only [List.length_cons, List.length_nil] at lengths
          omega
        · intro nonzero
          have := groupsValue_ne_zero isGroups nonzero
          omega
      · rw [if_neg small]
        have digit :
            (byte.toNat % 128 + 128 * groupsValue rest) % 128 + 128 =
              byte.toNat := by
          omega
        have others :
            (byte.toNat % 128 + 128 * groupsValue rest) / 128 =
              groupsValue rest := by
          omega
        rw [digit, others, UInt8.ofNat_toNat, List.cons.injEq,
          and_iff_right rfl, canonical, or_iff_right_iff_imp]
        intro single zero
        obtain ⟨only, rfl⟩ := List.length_eq_one_iff.mp single
        simp only [List.getLast?_singleton, Option.some.injEq] at zero
        subst zero
        simp only [groupsValue, UInt8.toNat_zero] at small
        omega

/-- The shortest encoding is one. -/
theorem isGroups_varint
    {value : Nat}
    (fits : value < 2 ^ 64) :
    IsGroups (varint value) ∧ groupsValue (varint value) = value ∧
      (varint value).length ≤ 10 :=
  isGroups_varintGroups (by norm_num) (fits.trans (by norm_num))

/-- A number is read back from its shortest encoding. -/
theorem takeVarint_varint
    {ε : Type}
    {truncated overflow tooLong : ε}
    {value : Nat}
    (fits : value < 2 ^ 64)
    (rest : List UInt8) :
    takeVarint truncated overflow tooLong (varint value ++ rest) =
      .ok (value, rest) := by
  obtain ⟨isGroups, spelled, short⟩ := isGroups_varint fits
  exact takeVarint_eq_ok.mpr
    ⟨varint value, rfl, isGroups, short, spelled.symm, fits⟩

/-- A reader of shortest encodings accepts exactly these. -/
theorem takeShortest_takeVarint_eq_ok
    {ε : Type}
    {truncated overflow tooLong failure : ε}
    {bytes rest : List UInt8}
    {value : Nat} :
    takeShortest (takeVarint truncated overflow tooLong) failure bytes =
        .ok (value, rest) ↔
      value < 2 ^ 64 ∧ bytes = varint value ++ rest := by
  rw [takeShortest_eq_ok]
  constructor
  · rintro ⟨read, length⟩
    obtain ⟨consumed, rfl, isGroups, short, rfl, fits⟩ :=
      takeVarint_eq_ok.mp read
    rw [List.length_append, Nat.add_sub_cancel] at length
    have same := (varintGroups_shortest isGroups short).2.mp length.symm
    exact ⟨fits, by rw [varint, ← same]⟩
  · rintro ⟨fits, rfl⟩
    refine ⟨takeVarint_varint fits rest, ?_⟩
    rw [List.length_append, Nat.add_sub_cancel]

end Shortest

end Foundation
