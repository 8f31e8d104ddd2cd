import ZanoP2pool.Foundation.Format

namespace Foundation

/-!
# Fixed-width words

Readers for the big-endian words of a byte format.  Each accepts exactly the
byte strings that start with the encoding of the word it returns.
-/

variable {ε α : Type} {truncated : ε} {bytes rest : List UInt8}

/-- A reader that maps a big-endian number to the word it stands for. -/
theorem takeBigEndian_map_eq_ok
    {width : Nat}
    {toNat : α → Nat}
    {ofNat : Nat → α}
    (fits : ∀ value, toNat value < 256 ^ width)
    (back : ∀ value, ofNat (toNat value) = value)
    (forth : ∀ number, number < 256 ^ width → toNat (ofNat number) = number)
    {value : α} :
    ((do return ofNat (← takeBigEndian width truncated)) : Cursor ε α)
        bytes = .ok (value, rest) ↔
      bytes = bigEndian width (toNat value) ++ rest := by
  rw [cursor_bind_eq_ok]
  constructor
  · rintro ⟨number, middle, taken, returned⟩
    obtain ⟨rfl, rfl⟩ := cursor_pure_eq_ok.mp returned
    obtain ⟨small, rfl⟩ := takeBigEndian_eq_ok.mp taken
    rw [forth number small]
  · rintro rfl
    refine ⟨toNat value, rest, takeBigEndian_eq_ok.mpr ⟨fits value, rfl⟩, ?_⟩
    exact cursor_pure_eq_ok.mpr ⟨back value, rfl⟩

def takeUInt16 (truncated : ε) : Cursor ε UInt16 := do
  return UInt16.ofNat (← takeBigEndian 2 truncated)

def takeUInt32 (truncated : ε) : Cursor ε UInt32 := do
  return UInt32.ofNat (← takeBigEndian 4 truncated)

def takeUInt64 (truncated : ε) : Cursor ε UInt64 := do
  return UInt64.ofNat (← takeBigEndian 8 truncated)

def takeBitVec128 (truncated : ε) : Cursor ε (BitVec 128) := do
  return BitVec.ofNat 128 (← takeBigEndian 16 truncated)

def takeBitVec256 (truncated : ε) : Cursor ε (BitVec 256) := do
  return BitVec.ofNat 256 (← takeBigEndian 32 truncated)

theorem takeUInt16_eq_ok
    {value : UInt16} :
    takeUInt16 truncated bytes = .ok (value, rest) ↔
      bytes = bigEndian 2 value.toNat ++ rest :=
  takeBigEndian_map_eq_ok (fun value => value.toNat_lt)
    (fun _ => UInt16.ofNat_toNat)
    (fun _ small => UInt16.toNat_ofNat_of_lt' small)

theorem takeUInt32_eq_ok
    {value : UInt32} :
    takeUInt32 truncated bytes = .ok (value, rest) ↔
      bytes = bigEndian 4 value.toNat ++ rest :=
  takeBigEndian_map_eq_ok (fun value => value.toNat_lt)
    (fun _ => UInt32.ofNat_toNat)
    (fun _ small => UInt32.toNat_ofNat_of_lt' small)

theorem takeUInt64_eq_ok
    {value : UInt64} :
    takeUInt64 truncated bytes = .ok (value, rest) ↔
      bytes = bigEndian 8 value.toNat ++ rest :=
  takeBigEndian_map_eq_ok (fun value => value.toNat_lt)
    (fun _ => UInt64.ofNat_toNat)
    (fun _ small => UInt64.toNat_ofNat_of_lt' small)

theorem takeBitVec128_eq_ok
    {value : BitVec 128} :
    takeBitVec128 truncated bytes = .ok (value, rest) ↔
      bytes = bigEndian 16 value.toNat ++ rest :=
  takeBigEndian_map_eq_ok (fun value => value.isLt)
    (fun value => BitVec.ofNat_toNat 128 value)
    (fun _ small => by rw [BitVec.toNat_ofNat]; exact Nat.mod_eq_of_lt small)

theorem takeBitVec256_eq_ok
    {value : BitVec 256} :
    takeBitVec256 truncated bytes = .ok (value, rest) ↔
      bytes = bigEndian 32 value.toNat ++ rest :=
  takeBigEndian_map_eq_ok (fun value => value.isLt)
    (fun value => BitVec.ofNat_toNat 256 value)
    (fun _ small => by rw [BitVec.toNat_ofNat]; exact Nat.mod_eq_of_lt small)

end Foundation
