import ZanoP2pool.Foundation.Cursor

namespace Foundation

/-!
# Variable-length numbers

Numbers are written in groups of seven bits, least significant group first; every
byte but the last has its high bit set.  The reader accepts at most ten bytes and
at most 64 bits, but not only shortest encodings.
-/

/-- The groups of a number, at most `groups` of them. -/
def varintGroups : Nat → Nat → List UInt8
  | 0, _ => []
  | groups + 1, value =>
      if value < 128 then
        [UInt8.ofNat value]
      else
        UInt8.ofNat (value % 128 + 128) :: varintGroups groups (value / 128)

/-- The shortest encoding of a number of at most 64 bits. -/
def varint (value : Nat) : List UInt8 :=
  varintGroups 10 value

/-- Read one byte. -/
def takeByte (truncated : ε) : Cursor ε UInt8
  | [] => .error truncated
  | byte :: rest => .ok (byte, rest)

/-- Read the groups of a number, at most `groups` of them. -/
def takeVarintGroups
    (truncated overflow tooLong : ε) :
    Nat → Nat → Nat → Cursor ε Nat
  | 0, _, _ => throw tooLong
  | groups + 1, shift, value => do
      let byte ← takeByte truncated
      if shift = 63 ∧ byte &&& 0x7e ≠ 0 then
        throw overflow
      else if byte &&& 0x80 = 0 then
        return value ||| ((byte &&& 0x7f).toNat <<< shift)
      else
        takeVarintGroups truncated overflow tooLong groups (shift + 7)
          (value ||| ((byte &&& 0x7f).toNat <<< shift))

/-- Read one number of at most 64 bits. -/
def takeVarint (truncated overflow tooLong : ε) : Cursor ε Nat :=
  takeVarintGroups truncated overflow tooLong 10 0 0

/-- The first byte of the groups of a number. -/
theorem varintGroups_head
    {groups value : Nat}
    {byte : UInt8}
    {rest : List UInt8}
    (shape : varintGroups (groups + 1) value = byte :: rest) :
    (value < 128 ∧ byte.toNat = value ∧ rest = []) ∨
      (128 ≤ value ∧ byte.toNat = value % 128 + 128 ∧
        rest = varintGroups groups (value / 128)) := by
  rw [varintGroups] at shape
  by_cases short : value < 128
  · rw [if_pos short] at shape
    obtain ⟨rfl, rfl⟩ := List.cons.inj shape
    refine .inl ⟨short, ?_, rfl⟩
    rw [UInt8.toNat_ofNat']
    exact Nat.mod_eq_of_lt (by omega)
  · rw [if_neg short] at shape
    obtain ⟨rfl, rfl⟩ := List.cons.inj shape
    refine .inr ⟨Nat.not_lt.mp short, ?_, rfl⟩
    rw [UInt8.toNat_ofNat']
    exact Nat.mod_eq_of_lt (by omega)

/-- Numbers of few enough groups have different encodings. -/
theorem varintGroups_injective
    {groups first second : Nat}
    (firstFits : first < 128 ^ groups)
    (secondFits : second < 128 ^ groups)
    (same : varintGroups groups first = varintGroups groups second) :
    first = second := by
  induction groups generalizing first second with
  | zero => omega
  | succ groups inductionHypothesis =>
      rw [Nat.pow_succ] at firstFits secondFits
      cases shape : varintGroups (groups + 1) first with
      | nil =>
          rw [varintGroups] at shape
          split_ifs at shape
      | cons byte rest =>
          rw [shape] at same
          rcases varintGroups_head shape with
            ⟨_, value, _⟩ | ⟨_, value, others⟩
          · rcases varintGroups_head same.symm with
              ⟨_, otherValue, _⟩ | ⟨_, otherValue, _⟩ <;> omega
          · rcases varintGroups_head same.symm with
              ⟨_, otherValue, _⟩ | ⟨_, otherValue, otherRest⟩
            · omega
            · have quotients := inductionHypothesis
                (Nat.div_lt_of_lt_mul (by omega))
                (Nat.div_lt_of_lt_mul (by omega))
                (others.symm.trans otherRest)
              omega

/-- Different 64-bit numbers have different encodings. -/
theorem varint_injective
    {first second : Nat}
    (firstFits : first < 2 ^ 64)
    (secondFits : second < 2 ^ 64)
    (same : varint first = varint second) :
    first = second :=
  varintGroups_injective (firstFits.trans (by norm_num))
    (secondFits.trans (by norm_num)) same

end Foundation
