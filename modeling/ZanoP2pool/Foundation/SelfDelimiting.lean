import ZanoP2pool.Foundation.Varint

namespace Foundation

/-!
# Self-delimiting readers

A reader is self-delimiting when the bytes it consumes determine its result,
whatever follows them.  Two byte strings that start with a field of such a reader
and are equal as a whole have equal fields.
-/

/-- The consumed bytes alone determine what is read. -/
def SelfDelimiting (reader : Cursor ε α) : Prop :=
  ∀ ⦃bytes : List UInt8⦄ ⦃value : α⦄ ⦃rest : List UInt8⦄,
    reader bytes = .ok (value, rest) →
      ∃ consumed,
        bytes = consumed ++ rest ∧
          ∀ other, reader (consumed ++ other) = .ok (value, other)

namespace SelfDelimiting

theorem pure
    (value : α) :
    SelfDelimiting (Pure.pure value : Cursor ε α) := by
  rintro bytes found rest ⟨⟩
  exact ⟨[], rfl, fun _ => rfl⟩

theorem throw
    (failure : ε) :
    SelfDelimiting (MonadExcept.throw failure : Cursor ε α) := by
  rintro bytes found rest ⟨⟩

theorem takeByte
    (truncated : ε) :
    SelfDelimiting (takeByte truncated) := by
  intro bytes value rest read
  cases bytes with
  | nil => cases read
  | cons byte others =>
      cases read
      exact ⟨[value], rfl, fun _ => rfl⟩

theorem takeBytes
    (width : Nat)
    (truncated : ε) :
    SelfDelimiting (takeBytes width truncated) := by
  intro bytes value rest read
  unfold Foundation.takeBytes at read
  split_ifs at read with short
  cases read
  refine ⟨bytes.take width, (List.take_append_drop width bytes).symm, ?_⟩
  intro other
  exact takeBytes_append (by rw [List.length_take]; omega) truncated other

theorem bind
    {reader : Cursor ε α}
    {next : α → Cursor ε β}
    (first : SelfDelimiting reader)
    (second : ∀ value, SelfDelimiting (next value)) :
    SelfDelimiting (reader >>= next) := by
  intro bytes value rest read
  cases readFirst : reader bytes with
  | error failure =>
      simp only [Bind.bind, StateT.bind, readFirst, Except.bind] at read
      cases read
  | ok found =>
      obtain ⟨middle, remaining⟩ := found
      rw [cursor_bind_of_ok readFirst] at read
      obtain ⟨leading, rfl, again⟩ := first readFirst
      obtain ⟨trailing, rfl, againNext⟩ := second middle read
      refine ⟨leading ++ trailing, by rw [List.append_assoc], ?_⟩
      intro other
      rw [List.append_assoc, cursor_bind_of_ok (again (trailing ++ other))]
      exact againNext other

theorem takeVarintGroups
    (truncated overflow tooLong : ε)
    (groups shift value : Nat) :
    SelfDelimiting
      (takeVarintGroups truncated overflow tooLong groups shift value) := by
  induction groups generalizing shift value with
  | zero => exact throw tooLong
  | succ groups inductionHypothesis =>
      refine bind (takeByte truncated) fun byte => ?_
      split_ifs
      · exact throw overflow
      · exact pure _
      · exact inductionHypothesis _ _

theorem takeVarint
    (truncated overflow tooLong : ε) :
    SelfDelimiting (takeVarint truncated overflow tooLong) :=
  takeVarintGroups truncated overflow tooLong 10 0 0

end SelfDelimiting

/-- Fields that start one byte string are equal. -/
theorem field_unique
    {reader : Cursor ε α}
    {first second rest otherRest : List UInt8}
    {value otherValue : α}
    (read : reader (first ++ rest) = .ok (value, rest))
    (otherRead : reader (second ++ otherRest) = .ok (otherValue, otherRest))
    (same : first ++ rest = second ++ otherRest) :
    first = second ∧ rest = otherRest := by
  rw [same, otherRead] at read
  obtain ⟨rfl, rfl⟩ := Prod.mk.inj (Except.ok.inj read)
  exact ⟨List.append_cancel_right same, rfl⟩

end Foundation
