import ZanoP2pool.Foundation.ArrayLoops
import ZanoP2pool.Foundation.KeccakSponge

namespace ZanoP2pool

open Foundation

/-!
# The hash function of the program

The permutation works in place on 25 words: rho and pi are one walk along the
other 24 lanes, chi goes row by row through five words of scratch.  Every access
is checked, so an index outside its array would leave the hash without a value.
-/

def kRoundConstants : Vector UInt64 24 := #v[
  0x0000000000000001, 0x0000000000008082,
  0x800000000000808a, 0x8000000080008000,
  0x000000000000808b, 0x0000000080000001,
  0x8000000080008081, 0x8000000000008009,
  0x000000000000008a, 0x0000000000000088,
  0x0000000080008009, 0x000000008000000a,
  0x000000008000808b, 0x800000000000008b,
  0x8000000000008089, 0x8000000000008003,
  0x8000000000008002, 0x8000000000000080,
  0x000000000000800a, 0x800000008000000a,
  0x8000000080008081, 0x8000000000008080,
  0x0000000080000001, 0x8000000080008008]

def kRotationConstants : Vector Nat 24 := #v[
  1, 3, 6, 10, 15, 21, 28, 36, 45, 55, 2, 14,
  27, 41, 56, 8, 25, 43, 62, 18, 39, 61, 20, 44]

def kPiLane : Vector Nat 24 := #v[
  10, 7, 11, 17, 18, 3, 5, 16, 8, 21, 24, 4,
  15, 23, 19, 13, 12, 2, 20, 14, 22, 9, 6, 1]

def rotl64 (value : UInt64) (shift : Nat) : UInt64 :=
  (value <<< UInt64.ofNat shift) ||| (value >>> UInt64.ofNat (64 - shift))

def loadLe64 (bytes : List UInt8) (offset : Nat) : Option UInt64 :=
  (List.range 8).foldlM
    (fun value index => do
      let byte ← bytes[offset + index]?
      return value ||| (byte.toUInt64 <<< UInt64.ofNat (8 * index)))
    0

def storeLe64
    {size : Nat}
    (bytes : Vector UInt8 size)
    (offset : Nat)
    (value : UInt64) :
    Option (Vector UInt8 size) :=
  (List.range 8).foldlM
    (fun bytes index =>
      store bytes (offset + index) (value >>> UInt64.ofNat (8 * index)).toUInt8)
    bytes

/-- The indices `0, 5, .., 20` of the loops over rows. -/
def rowStarts : List Nat := [0, 5, 10, 15, 20]

section Permutation

variable (state : Vector UInt64 25) (bc : Vector UInt64 5)

def columnParities : Option (Vector UInt64 5) :=
  (List.range 5).foldlM
    (fun bc index => do
      let first ← state[index]?
      let second ← state[index + 5]?
      let third ← state[index + 10]?
      let fourth ← state[index + 15]?
      let fifth ← state[index + 20]?
      store bc index (first ^^^ second ^^^ third ^^^ fourth ^^^ fifth))
    bc

def mixColumns : Option (Vector UInt64 25) :=
  (List.range 5).foldlM
    (fun state index => do
      let left ← bc[(index + 4) % 5]?
      let right ← bc[(index + 1) % 5]?
      let mixed := left ^^^ rotl64 right 1
      rowStarts.foldlM
        (fun state row => do
          let lane ← state[row + index]?
          store state (row + index) (lane ^^^ mixed))
        state)
    state

/-- One step of the walk; the word beside the state is the lane in flight. -/
def moveLane
    (moving : Vector UInt64 25 × UInt64)
    (index : Nat) :
    Option (Vector UInt64 25 × UInt64) := do
  let lane ← kPiLane[index]?
  let next ← moving.1[lane]?
  let shift ← kRotationConstants[index]?
  let state ← store moving.1 lane (rotl64 moving.2 shift)
  return (state, next)

def moveLanes : Option (Vector UInt64 25) := do
  let first ← state[1]?
  let (state, _) ← (List.range 24).foldlM moveLane (state, first)
  return state

def copyRow (row : Nat) : Option (Vector UInt64 5) :=
  (List.range 5).foldlM
    (fun bc index => do
      let lane ← state[row + index]?
      store bc index lane)
    bc

def combineRow (row : Nat) : Option (Vector UInt64 25) :=
  (List.range 5).foldlM
    (fun state index => do
      let lane ← state[row + index]?
      let next ← bc[(index + 1) % 5]?
      let afterNext ← bc[(index + 2) % 5]?
      store state (row + index) (lane ^^^ (~~~next &&& afterNext)))
    state

def combineRows : Option (Vector UInt64 25 × Vector UInt64 5) :=
  rowStarts.foldlM
    (fun (state, bc) row => do
      let bc ← copyRow state bc row
      let state ← combineRow state bc row
      return (state, bc))
    (state, bc)

def keccakRound (round : Nat) : Option (Vector UInt64 25 × Vector UInt64 5) := do
  let bc ← columnParities state bc
  let state ← mixColumns state bc
  let state ← moveLanes state
  let (state, bc) ← combineRows state bc
  let lane ← state[0]?
  let constant ← kRoundConstants[round]?
  let state ← store state 0 (lane ^^^ constant)
  return (state, bc)

def keccakF1600 : Option (Vector UInt64 25) := do
  let (state, _) ←
    (List.range 24).foldlM
      (fun (state, bc) round => keccakRound state bc round)
      (state, Vector.replicate 5 0)
  return state

end Permutation

def kRate : Nat := 136

def kRateWords : Nat := kRate / 8

/-- Combine the state with the words of one block. -/
def absorbBlock
    (state : Vector UInt64 25)
    (block : List UInt8) :
    Option (Vector UInt64 25) :=
  (List.range kRateWords).foldlM
    (fun state index => do
      let lane ← state[index]?
      let word ← loadLe64 block (index * 8)
      store state index (lane ^^^ word))
    state

/-- The loop over whole blocks, with the data it leaves. -/
def absorbWhole
    (state : Vector UInt64 25)
    (data : List UInt8) :
    Option (Vector UInt64 25 × List UInt8) :=
  if kRate ≤ data.length then do
    let state ← absorbBlock state data
    let state ← keccakF1600 state
    absorbWhole state (data.drop kRate)
  else
    some (state, data)
termination_by data.length
decreasing_by
  simp only [kRate] at *
  rw [List.length_drop]
  omega

/-- The last block: the data left, the padding, and zeros between them. -/
def paddedTail (data : List UInt8) : Option (Vector UInt8 136) := do
  let tail ←
    (List.range data.length).foldlM
      (fun tail index => do
        let byte ← data[index]?
        store tail index byte)
      (Vector.replicate kRate 0)
  let tail ← store tail data.length 0x01
  let last ← tail[kRate - 1]?
  store tail (kRate - 1) (last ||| 0x80)

def cnFastHash (data : List UInt8) : Option (Vector UInt8 32) := do
  let (state, data) ← absorbWhole (Vector.replicate 25 0) data
  let tail ← paddedTail data
  let state ← absorbBlock state tail.toList
  let state ← keccakF1600 state
  (List.range 4).foldlM
    (fun result index => do
      let lane ← state[index]?
      storeLe64 result (index * 8) lane)
    (Vector.replicate 32 0)

end ZanoP2pool
