import ZanoP2pool.Foundation.BigEndian

namespace Foundation

/-!
# Fixed-width little-endian numbers

The bytes of a number, least significant byte first, as a loop of shifts writes
them.
-/

/-- The `width` little-endian bytes of a value; higher bits are dropped. -/
def littleEndian : Nat → Nat → List UInt8
  | 0, _ => []
  | width + 1, value => UInt8.ofNat value :: littleEndian width (value / 256)

/-- The value spelled by a list of little-endian bytes. -/
def ofLittleEndian : List UInt8 → Nat
  | [] => 0
  | byte :: rest => byte.toNat + 256 * ofLittleEndian rest

@[simp] theorem length_littleEndian
    (width value : Nat) :
    (littleEndian width value).length = width := by
  induction width generalizing value with
  | zero => rfl
  | succ width inductionHypothesis =>
      simp [littleEndian, inductionHypothesis]

/-- A value that fits its width is read back. -/
theorem ofLittleEndian_littleEndian
    {width value : Nat}
    (fits : value < 256 ^ width) :
    ofLittleEndian (littleEndian width value) = value := by
  induction width generalizing value with
  | zero =>
      simp only [pow_zero, Nat.lt_one_iff] at fits
      simp [littleEndian, ofLittleEndian, fits]
  | succ width inductionHypothesis =>
      have quotient : value / 256 < 256 ^ width := by
        rw [Nat.div_lt_iff_lt_mul (by omega), ← pow_succ]
        exact fits
      have low : (UInt8.ofNat value).toNat = value % 256 := by
        simp
      rw [littleEndian, ofLittleEndian, inductionHypothesis quotient, low]
      omega

/-- The last byte is the most significant one. -/
theorem ofLittleEndian_concat
    (bytes : List UInt8)
    (byte : UInt8) :
    ofLittleEndian (bytes ++ [byte]) =
      ofLittleEndian bytes + 2 ^ (8 * bytes.length) * byte.toNat := by
  induction bytes with
  | nil => simp [ofLittleEndian]
  | cons first rest inductionHypothesis =>
      rw [List.cons_append, ofLittleEndian, inductionHypothesis, ofLittleEndian,
        List.length_cons]
      ring

theorem ofLittleEndian_lt (bytes : List UInt8) :
    ofLittleEndian bytes < 2 ^ (8 * bytes.length) := by
  induction bytes with
  | nil => simp [ofLittleEndian]
  | cons byte rest inductionHypothesis =>
      have small := byte.toNat_lt
      rw [ofLittleEndian, List.length_cons, Nat.mul_add, pow_add]
      omega

/-- One byte of a number. -/
theorem getElem?_littleEndian
    {width value index : Nat}
    (within : index < width) :
    (littleEndian width value)[index]? =
      some (UInt8.ofNat (value / 2 ^ (8 * index))) := by
  induction width generalizing value index with
  | zero => cases within
  | succ width inductionHypothesis =>
      cases index with
      | zero => simp [littleEndian]
      | succ index =>
          rw [littleEndian, List.getElem?_cons_succ,
            inductionHypothesis (by omega), Nat.div_div_eq_div_mul]
          congr 3
          ring

end Foundation
