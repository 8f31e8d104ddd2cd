import ZanoP2pool.Foundation.Format

namespace Foundation

/-!
# Readers that agree on what they accept

Two readers may throw different exceptions and still accept the same bytes.  What
one of them is known to consume is then known of the other, and a check added to
both keeps them together.
-/

/-- Two readers accept the same bytes with the same results. -/
def SameSuccess
    (first : Cursor ε α)
    (second : Cursor φ α) :
    Prop :=
  ∀ bytes value rest,
    first bytes = .ok (value, rest) ↔ second bytes = .ok (value, rest)

namespace SameSuccess

/-- Which exceptions a reader of numbers throws does not matter. -/
theorem takeVarintGroups
    (truncated overflow tooLong : ε)
    (otherTruncated otherOverflow otherTooLong : φ)
    (groups shift value : Nat) :
    SameSuccess
      (takeVarintGroups truncated overflow tooLong groups shift value)
      (takeVarintGroups otherTruncated otherOverflow otherTooLong groups shift
        value) := by
  induction groups generalizing shift value with
  | zero =>
      intro bytes found rest
      exact iff_of_false cursor_throw_ne_ok cursor_throw_ne_ok
  | succ groups inductionHypothesis =>
      intro bytes found rest
      simp only [Foundation.takeVarintGroups, cursor_bind_eq_ok,
        takeByte_eq_ok, cursor_guard_eq_ok]
      refine exists_congr fun byte => exists_congr fun middle =>
        and_congr_right fun _ => and_congr_right fun _ => ?_
      by_cases last : byte &&& 0x80 = 0
      · rw [if_pos last, if_pos last, cursor_pure_eq_ok, cursor_pure_eq_ok]
      · rw [if_neg last, if_neg last]
        exact inductionHypothesis _ _ middle found rest

theorem takeVarint
    (truncated overflow tooLong : ε)
    (otherTruncated otherOverflow otherTooLong : φ) :
    SameSuccess (takeVarint truncated overflow tooLong)
      (takeVarint otherTruncated otherOverflow otherTooLong) :=
  takeVarintGroups truncated overflow tooLong otherTruncated otherOverflow
    otherTooLong 10 0 0

end SameSuccess

/-- Read a number and refuse it unless it was in its shortest form. -/
def takeShortest
    (reader : Cursor ε Nat)
    (failure : ε) :
    Cursor ε Nat := do
  let before ← get
  let value ← reader
  let after ← get
  if before.length - after.length ≠ (varint value).length then
    throw failure
  else
    return value

theorem takeShortest_eq_ok
    {reader : Cursor ε Nat}
    {failure : ε}
    {bytes rest : List UInt8}
    {value : Nat} :
    takeShortest reader failure bytes = .ok (value, rest) ↔
      reader bytes = .ok (value, rest) ∧
        bytes.length - rest.length = (varint value).length := by
  unfold takeShortest
  rw [cursor_get_bind, cursor_bind_eq_ok]
  constructor
  · rintro ⟨found, middle, read, returned⟩
    rw [cursor_get_bind, cursor_guard_eq_ok, cursor_pure_eq_ok] at returned
    obtain ⟨short, rfl, rfl⟩ := returned
    exact ⟨read, not_not.mp short⟩
  · rintro ⟨read, short⟩
    refine ⟨value, rest, read, ?_⟩
    rw [cursor_get_bind, cursor_guard_eq_ok, cursor_pure_eq_ok]
    exact ⟨not_not.mpr short, rfl, rfl⟩

theorem SameSuccess.takeShortest
    {reader : Cursor ε Nat}
    {other : Cursor φ Nat}
    (same : SameSuccess reader other)
    (failure : ε)
    (otherFailure : φ) :
    SameSuccess (takeShortest reader failure)
      (takeShortest other otherFailure) := by
  intro bytes value rest
  rw [takeShortest_eq_ok, takeShortest_eq_ok, same bytes value rest]

/-- The length of the shortest form is a matter of the consumed bytes. -/
theorem SelfDelimiting.takeShortest
    {reader : Cursor ε Nat}
    (delimited : SelfDelimiting reader)
    (failure : ε) :
    SelfDelimiting (takeShortest reader failure) := by
  intro bytes value rest read
  obtain ⟨read, short⟩ := takeShortest_eq_ok.mp read
  obtain ⟨consumed, rfl, again⟩ := delimited read
  refine ⟨consumed, rfl, fun other => takeShortest_eq_ok.mpr ⟨again other, ?_⟩⟩
  rw [List.length_append, Nat.add_sub_cancel] at short ⊢
  exact short

theorem SelfDelimiting.guarded
    {refused : Prop}
    [Decidable refused]
    {reader : Cursor ε α}
    (failure : ε)
    (delimited : ¬ refused → SelfDelimiting reader) :
    SelfDelimiting
      (if refused then MonadExcept.throw failure else reader) := by
  by_cases holds : refused
  · rw [if_pos holds]
    exact .throw failure
  · rw [if_neg holds]
    exact delimited holds

/-- A number read from one byte is that byte. -/
theorem takeVarint_single
    {truncated overflow tooLong : ε}
    {bytes rest : List UInt8}
    {value : Nat}
    (read : takeVarint truncated overflow tooLong bytes = .ok (value, rest))
    (single : bytes.length - rest.length = 1) :
    bytes = UInt8.ofNat value :: rest := by
  have lastByte :
      ∀ byte : UInt8,
        byte &&& 0x80 = 0 → UInt8.ofNat (byte &&& 0x7f).toNat = byte := by
    decide +kernel
  unfold takeVarint takeVarintGroups at read
  simp only [cursor_bind_eq_ok, takeByte_eq_ok, cursor_guard_eq_ok] at read
  obtain ⟨byte, middle, rfl, _, read⟩ := read
  by_cases last : byte &&& 0x80 = 0
  · rw [if_pos last, cursor_pure_eq_ok] at read
    obtain ⟨rfl, rfl⟩ := read
    rw [Nat.zero_or, Nat.shiftLeft_zero, lastByte byte last]
  · -- A further byte would make the encoding longer.
    rw [if_neg last] at read
    unfold takeVarintGroups at read
    obtain ⟨second, remaining, taken, read⟩ := cursor_bind_eq_ok.mp read
    obtain rfl := takeByte_eq_ok.mp taken
    have delimited :
        SelfDelimiting
          (if 0 + 7 = 63 ∧ second &&& 0x7e ≠ 0 then
            MonadExcept.throw overflow
          else if second &&& 0x80 = 0 then
            Pure.pure ((0 ||| (byte &&& 0x7f).toNat <<< 0) |||
              ((second &&& 0x7f).toNat <<< (0 + 7)))
          else
            takeVarintGroups truncated overflow tooLong 8 (0 + 7 + 7)
              ((0 ||| (byte &&& 0x7f).toNat <<< 0) |||
                ((second &&& 0x7f).toNat <<< (0 + 7))) :
            Cursor ε Nat) := by
      split_ifs
      · exact .throw overflow
      · exact .pure _
      · exact .takeVarintGroups _ _ _ _ _ _
    obtain ⟨consumed, rfl, _⟩ := delimited read
    simp only [List.length_cons, List.length_append] at single
    omega

end Foundation
