import Mathlib

namespace Foundation

/-!
# Fixed-width big-endian numbers

Fixed-size byte arrays are represented by the number their bytes spell, most
significant byte first.  This module converts between the two readings and
proves the conversions inverse to each other.  It also contains the
byte-by-byte addition with carry and the linear order on bit vectors, which is
the lexicographic order of the byte arrays they stand for.
-/

/-- The `width` big-endian bytes of a value; higher bits are dropped. -/
def bigEndian : Nat → Nat → List UInt8
  | 0, _ => []
  | width + 1, value =>
      UInt8.ofNat (value / 256 ^ width) :: bigEndian width value

/-- The value spelled by a list of big-endian bytes. -/
def ofBigEndian (bytes : List UInt8) : Nat :=
  bytes.foldl (fun value byte => value * 256 + byte.toNat) 0

/-- An encoding has exactly its requested width. -/
@[simp] theorem length_bigEndian
    (width value : Nat) :
    (bigEndian width value).length = width := by
  induction width with
  | zero =>
      rfl
  | succ width inductionHypothesis =>
      simp [bigEndian, inductionHypothesis]

/-- The accumulator of the decoding loop is shifted past the remaining bytes. -/
private theorem foldl_bigEndian
    (bytes : List UInt8)
    (start : Nat) :
    bytes.foldl (fun value byte => value * 256 + byte.toNat) start =
      start * 256 ^ bytes.length + ofBigEndian bytes := by
  induction bytes generalizing start with
  | nil =>
      simp [ofBigEndian]
  | cons byte rest inductionHypothesis =>
      simp only [List.foldl_cons, ofBigEndian, List.length_cons]
      rw [inductionHypothesis (start * 256 + byte.toNat),
        inductionHypothesis (0 * 256 + byte.toNat)]
      ring

@[simp] theorem ofBigEndian_nil :
    ofBigEndian [] = 0 :=
  rfl

/-- Peel the most significant byte off a decoded value. -/
theorem ofBigEndian_cons
    (byte : UInt8)
    (rest : List UInt8) :
    ofBigEndian (byte :: rest) =
      byte.toNat * 256 ^ rest.length + ofBigEndian rest := by
  simp only [ofBigEndian, List.foldl_cons]
  rw [foldl_bigEndian]
  simp [ofBigEndian]

/-- Decoding a concatenation shifts the leading part past the trailing one. -/
theorem ofBigEndian_append
    (leading trailing : List UInt8) :
    ofBigEndian (leading ++ trailing) =
      ofBigEndian leading * 256 ^ trailing.length +
        ofBigEndian trailing := by
  simp only [ofBigEndian, List.foldl_append]
  rw [foldl_bigEndian]
  rfl

/-- A decoded value fits the width of its encoding. -/
theorem ofBigEndian_lt
    (bytes : List UInt8) :
    ofBigEndian bytes < 256 ^ bytes.length := by
  induction bytes with
  | nil =>
      simp
  | cons byte rest inductionHypothesis =>
      rw [ofBigEndian_cons, List.length_cons, pow_succ]
      have byteBound : byte.toNat < 256 := byte.toNat_lt
      nlinarith

/-- Decoding an encoding keeps exactly the bits that fit. -/
theorem ofBigEndian_bigEndian
    (width value : Nat) :
    ofBigEndian (bigEndian width value) = value % 256 ^ width := by
  induction width with
  | zero =>
      simp [bigEndian, Nat.mod_one]
  | succ width inductionHypothesis =>
      have byteValue :
          (UInt8.ofNat (value / 256 ^ width)).toNat =
            value / 256 ^ width % 256 := by
        simp [UInt8.toNat_ofNat']
      rw [bigEndian, ofBigEndian_cons, length_bigEndian,
        inductionHypothesis, byteValue, pow_succ, Nat.mod_mul]
      ring

/-- A value that fits the width survives encoding and decoding. -/
theorem ofBigEndian_bigEndian_of_lt
    {width value : Nat}
    (fits : value < 256 ^ width) :
    ofBigEndian (bigEndian width value) = value := by
  rw [ofBigEndian_bigEndian, Nat.mod_eq_of_lt fits]

/-- Adding a multiple of the width's capacity does not change the encoding. -/
private theorem bigEndian_add_mul
    (width extra value high : Nat) :
    bigEndian width (high * 256 ^ (width + extra) + value) =
      bigEndian width value := by
  induction width generalizing extra with
  | zero =>
      rfl
  | succ width inductionHypothesis =>
      have headSame :
          UInt8.ofNat
              ((high * 256 ^ (width + 1 + extra) + value) /
                256 ^ width) =
            UInt8.ofNat (value / 256 ^ width) := by
        have split :
            high * 256 ^ (width + 1 + extra) + value =
              value + 256 ^ width * (high * 256 ^ extra * 256) := by
          ring
        rw [split, Nat.add_mul_div_left _ _ (by positivity)]
        apply UInt8.toNat_inj.mp
        simp [UInt8.toNat_ofNat']
      have tailSame := inductionHypothesis (extra + 1)
      simp only [bigEndian, headSame, List.cons.injEq, true_and]
      rw [← tailSame]
      congr 3
      ring

/-- Re-encoding the value of a byte list gives the same bytes. -/
theorem bigEndian_ofBigEndian
    (bytes : List UInt8) :
    bigEndian bytes.length (ofBigEndian bytes) = bytes := by
  induction bytes with
  | nil =>
      rfl
  | cons byte rest inductionHypothesis =>
      have restBound := ofBigEndian_lt rest
      have headSame :
          UInt8.ofNat
              ((byte.toNat * 256 ^ rest.length + ofBigEndian rest) /
                256 ^ rest.length) =
            byte := by
        have quotient :
            (byte.toNat * 256 ^ rest.length + ofBigEndian rest) /
                256 ^ rest.length =
              byte.toNat := by
          rw [Nat.add_comm, Nat.add_mul_div_right _ _ (by positivity),
            Nat.div_eq_of_lt restBound, Nat.zero_add]
        rw [quotient, UInt8.ofNat_toNat]
      have tailSame :
          bigEndian rest.length
              (byte.toNat * 256 ^ rest.length + ofBigEndian rest) =
            rest := by
        have shifted :=
          bigEndian_add_mul rest.length 0 (ofBigEndian rest) byte.toNat
        rw [Nat.add_zero] at shifted
        rw [shifted, inductionHypothesis]
      rw [ofBigEndian_cons, List.length_cons, bigEndian,
        headSame, tailSame]

/--
Add two byte lists, least significant byte first, with an incoming carry.
The result is the list of sum bytes and the carry out of the last position.
-/
def addWithCarry :
    List UInt8 → List UInt8 → Nat → List UInt8 × Nat
  | left :: lefts, right :: rights, carry =>
      let sum := left.toNat + right.toNat + carry
      let rest := addWithCarry lefts rights (sum / 256)
      (UInt8.ofNat (sum % 256) :: rest.1, rest.2)
  | _, _, carry => ([], carry)

/-- Adding keeps the common length of the two operands. -/
theorem length_addWithCarry
    {left right : List UInt8}
    (sameLength : left.length = right.length)
    (carry : Nat) :
    (addWithCarry left right carry).1.length = left.length := by
  induction left generalizing right carry with
  | nil =>
      simp [addWithCarry]
  | cons leftByte lefts inductionHypothesis =>
      cases right with
      | nil =>
          simp at sameLength
      | cons rightByte rights =>
          simp only [List.length_cons, Nat.add_right_cancel_iff] at sameLength
          simp [addWithCarry, inductionHypothesis sameLength]

/-- The sum bytes together with the carry out spell the exact sum. -/
theorem addWithCarry_value
    {left right : List UInt8}
    (sameLength : left.length = right.length)
    (carry : Nat) :
    ofBigEndian (addWithCarry left right carry).1.reverse +
        (addWithCarry left right carry).2 * 256 ^ left.length =
      ofBigEndian left.reverse + ofBigEndian right.reverse + carry := by
  induction left generalizing right carry with
  | nil =>
      cases right with
      | nil =>
          simp [addWithCarry]
      | cons rightByte rights =>
          simp at sameLength
  | cons leftByte lefts inductionHypothesis =>
      cases right with
      | nil =>
          simp at sameLength
      | cons rightByte rights =>
          simp only [List.length_cons, Nat.add_right_cancel_iff] at sameLength
          have later :=
            inductionHypothesis sameLength
              ((leftByte.toNat + rightByte.toNat + carry) / 256)
          have byteValue :
              (UInt8.ofNat
                ((leftByte.toNat + rightByte.toNat + carry) %
                  256)).toNat =
                (leftByte.toNat + rightByte.toNat + carry) % 256 := by
            simp [UInt8.toNat_ofNat']
          have divided :=
            Nat.div_add_mod
              (leftByte.toNat + rightByte.toNat + carry) 256
          simp only [addWithCarry, List.reverse_cons, ofBigEndian_append,
            ofBigEndian_cons, ofBigEndian_nil, List.length_cons,
            List.length_nil, pow_succ, pow_zero, one_mul, mul_one,
            byteValue]
          nlinarith

/--
Bit vectors are linearly ordered by value.  For the vector of a fixed-size
byte array this is the lexicographic order of the array.
-/
instance instLinearOrderBitVec
    (width : Nat) :
    LinearOrder (BitVec width) where
  toOrd := inferInstanceAs (Ord (BitVec width))
  le_refl := BitVec.le_refl
  le_trans := fun _ _ _ => BitVec.le_trans
  lt_iff_le_not_ge := by
    intro left right
    simp only [BitVec.le_def, BitVec.lt_def]
    omega
  le_antisymm := fun _ _ => BitVec.le_antisymm
  le_total := by
    intro left right
    simp only [BitVec.le_def]
    omega
  toDecidableLE := inferInstance
  toDecidableLT := inferInstance
  toDecidableEq := inferInstance

end Foundation
