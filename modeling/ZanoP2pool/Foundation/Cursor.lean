import ZanoP2pool.Foundation.BigEndian

namespace Foundation

/-!
# Byte cursors

A cursor computation consumes a prefix of a byte string and may fail.  The
remaining bytes are the state, so the read offset of an array parser is the
number of bytes consumed so far.  The laws below say that reading back a known
leading part returns exactly that part and leaves exactly what follows it.
-/

/-- A computation that reads from the front of the remaining bytes. -/
abbrev Cursor (ε : Type) := StateT (List UInt8) (Except ε)

/-- Read exactly `width` bytes, failing when fewer remain. -/
def takeBytes
    (width : Nat)
    (truncated : ε) :
    Cursor ε (List UInt8) :=
  fun remaining =>
    if remaining.length < width then
      .error truncated
    else
      .ok (remaining.take width, remaining.drop width)

/-- Read one big-endian number of the given byte width. -/
def takeBigEndian
    (width : Nat)
    (truncated : ε) :
    Cursor ε Nat := do
  let bytes ← takeBytes width truncated
  return ofBigEndian bytes

/-- Reading the width of a leading part returns it and leaves the rest. -/
theorem takeBytes_append
    {width : Nat}
    {leading : List UInt8}
    (widthEq : leading.length = width)
    (truncated : ε)
    (rest : List UInt8) :
    takeBytes width truncated (leading ++ rest) =
      .ok (leading, rest) := by
  subst width
  simp [takeBytes]

/-- Read one field, then go on with what follows it. -/
theorem cursor_bind_of_ok
    {α β : Type}
    {reader : Cursor ε α}
    {next : α → Cursor ε β}
    {bytes rest : List UInt8}
    {value : α}
    (read : reader bytes = .ok (value, rest)) :
    (reader >>= next) bytes = next value rest := by
  simp [bind, StateT.bind, read, Except.bind]

/-- A number that fits its width is read back from its encoding. -/
theorem takeBigEndian_bigEndian
    {width value : Nat}
    (fits : value < 256 ^ width)
    (truncated : ε)
    (rest : List UInt8) :
    takeBigEndian width truncated (bigEndian width value ++ rest) =
      .ok (value, rest) := by
  simp only [takeBigEndian, bind, StateT.bind,
    takeBytes_append (length_bigEndian width value) truncated rest]
  simp [ofBigEndian_bigEndian_of_lt fits, pure, StateT.pure, Except.bind,
    Except.pure]

end Foundation
