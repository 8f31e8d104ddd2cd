import ZanoP2pool.Foundation.SelfDelimiting

namespace Foundation

/-!
# Readers that accept exactly some encodings

A reader and an encoder belong together when the reader accepts a byte string
exactly if it starts with the encoding of what it returns.  Stated as an
equivalence this covers both directions of a round trip, and sequences of fields
are unfolded into the concatenation of their encodings.
-/

/-- A sequence of readers succeeds when each of them does. -/
theorem cursor_bind_eq_ok
    {α β : Type}
    {reader : Cursor ε α}
    {next : α → Cursor ε β}
    {bytes rest : List UInt8}
    {value : β} :
    (reader >>= next) bytes = .ok (value, rest) ↔
      ∃ first middle,
        reader bytes = .ok (first, middle) ∧
          next first middle = .ok (value, rest) := by
  cases read : reader bytes with
  | error failure => simp [bind, StateT.bind, read, Except.bind]
  | ok found =>
      rw [cursor_bind_of_ok read]
      constructor
      · intro later
        exact ⟨found.1, found.2, rfl, later⟩
      · rintro ⟨first, middle, ⟨⟩, later⟩
        exact later

theorem cursor_pure_eq_ok
    {α : Type}
    {value other : α}
    {bytes rest : List UInt8} :
    (pure value : Cursor ε α) bytes = .ok (other, rest) ↔
      value = other ∧ bytes = rest := by
  constructor
  · rintro ⟨⟩
    exact ⟨rfl, rfl⟩
  · rintro ⟨rfl, rfl⟩
    rfl

theorem cursor_throw_ne_ok
    {α : Type}
    {failure : ε}
    {value : α}
    {bytes rest : List UInt8} :
    ¬ (throw failure : Cursor ε α) bytes = .ok (value, rest) := by
  rintro ⟨⟩

/-- A check that returns or refuses. -/
theorem cursor_guard_eq_ok
    {α : Type}
    {refused : Prop}
    [Decidable refused]
    {failure : ε}
    {reader : Cursor ε α}
    {value : α}
    {bytes rest : List UInt8} :
    (if refused then throw failure else reader) bytes = .ok (value, rest) ↔
      ¬ refused ∧ reader bytes = .ok (value, rest) := by
  by_cases holds : refused
  · simp [holds, cursor_throw_ne_ok]
  · simp [holds]

/-- A computation that reads no bytes leaves them all. -/
theorem cursor_lift_eq_ok
    {α : Type}
    {computation : Except ε α}
    {value : α}
    {bytes rest : List UInt8} :
    (StateT.lift computation : Cursor ε α) bytes = .ok (value, rest) ↔
      computation = .ok value ∧ bytes = rest := by
  cases computation with
  | error failure => simp [StateT.lift, bind, Except.bind]
  | ok found => simp [StateT.lift, bind, Except.bind, pure, Except.pure]

/-- The remaining bytes are the state. -/
theorem cursor_get_bind
    {α : Type}
    {next : List UInt8 → Cursor ε α}
    {bytes : List UInt8} :
    ((get : Cursor ε (List UInt8)) >>= next) bytes = next bytes bytes :=
  rfl

/-- What a reader returns on a byte string, whatever it leaves. -/
theorem cursor_run_eq_ok
    {α : Type}
    {reader : Cursor ε α}
    {bytes : List UInt8}
    {value : α} :
    (do let read ← reader.run bytes; return read.1 : Except ε α) =
        .ok value ↔
      ∃ rest, reader bytes = .ok (value, rest) := by
  cases read : reader bytes with
  | error failure => simp [StateT.run, read, bind, Except.bind]
  | ok found =>
      simp [StateT.run, read, bind, Except.bind, pure, Except.pure,
        Prod.ext_iff]

theorem takeByte_eq_ok
    {truncated : ε}
    {bytes rest : List UInt8}
    {value : UInt8} :
    takeByte truncated bytes = .ok (value, rest) ↔
      bytes = value :: rest := by
  cases bytes with
  | nil => simp [takeByte]
  | cons byte others => simp [takeByte]

theorem takeBytes_eq_ok
    {width : Nat}
    {truncated : ε}
    {bytes leading rest : List UInt8} :
    takeBytes width truncated bytes = .ok (leading, rest) ↔
      leading.length = width ∧ bytes = leading ++ rest := by
  constructor
  · intro read
    unfold takeBytes at read
    split_ifs at read with short
    cases read
    exact ⟨by rw [List.length_take]; omega,
      (List.take_append_drop width bytes).symm⟩
  · rintro ⟨sized, rfl⟩
    exact takeBytes_append sized truncated rest

theorem takeBigEndian_eq_ok
    {width value : Nat}
    {truncated : ε}
    {bytes rest : List UInt8} :
    takeBigEndian width truncated bytes = .ok (value, rest) ↔
      value < 256 ^ width ∧ bytes = bigEndian width value ++ rest := by
  constructor
  · intro read
    unfold takeBigEndian at read
    obtain ⟨leading, middle, taken, returned⟩ := cursor_bind_eq_ok.mp read
    obtain ⟨rfl, rfl⟩ := cursor_pure_eq_ok.mp returned
    obtain ⟨rfl, rfl⟩ := takeBytes_eq_ok.mp taken
    exact ⟨ofBigEndian_lt leading, by rw [bigEndian_ofBigEndian]⟩
  · rintro ⟨fits, rfl⟩
    exact takeBigEndian_bigEndian fits truncated rest

end Foundation
