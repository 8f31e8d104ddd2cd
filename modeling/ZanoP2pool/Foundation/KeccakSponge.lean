import ZanoP2pool.Foundation.LittleEndian

namespace Foundation

/-!
# The Keccak sponge over lanes of 64 bits

The step mappings on the five by five lanes, the 24 rounds, and the sponge over
bytes.  Offsets and round constants are generated as the specification generates
them, so that tables can be checked against them.  The sponge of a given message can
be evaluated with such a table.
-/

namespace Keccak

/-- The lanes of a state, by column and then by row. -/
abbrev Lanes := Fin 5 → Fin 5 → UInt64

/-- A lane with its bits moved up cyclically. -/
def rotate (lane : UInt64) (offset : Nat) : UInt64 :=
  ⟨lane.toBitVec.rotateLeft offset⟩

/-- The parity of a column, bit by bit. -/
def column (lanes : Lanes) (x : Fin 5) : UInt64 :=
  lanes x 0 ^^^ lanes x 1 ^^^ lanes x 2 ^^^ lanes x 3 ^^^ lanes x 4

def theta (lanes : Lanes) : Lanes := fun x y =>
  lanes x y ^^^ (column lanes (x - 1) ^^^ rotate (column lanes (x + 1)) 1)

/-- The lane reached from column one, row zero after some moves. -/
def rhoLane : Nat → Fin 5 × Fin 5
  | 0 => (1, 0)
  | moves + 1 =>
      let (x, y) := rhoLane moves
      (y, 2 * x + 3 * y)

/-- The offset of a lane: a triangular number counted along the moves. -/
def rhoOffset (x y : Fin 5) : Nat :=
  match (List.range 24).find? fun moves => rhoLane moves = (x, y) with
  | some moves => (moves + 1) * (moves + 2) / 2 % 64
  | none => 0

def rho (lanes : Lanes) : Lanes := fun x y =>
  rotate (lanes x y) (rhoOffset x y)

def pi (lanes : Lanes) : Lanes := fun x y =>
  lanes (x + 3 * y) x

def chi (lanes : Lanes) : Lanes := fun x y =>
  lanes x y ^^^ (~~~lanes (x + 1) y &&& lanes (x + 2) y)

/-- The shift register that generates the bits of the round constants. -/
def shiftRegister : Nat → BitVec 8
  | 0 => 1
  | steps + 1 =>
      let register := shiftRegister steps
      if register.msb then (register <<< 1) ^^^ 0x71 else register <<< 1

/-- Seven bits of a round constant, at the positions one below powers of two. -/
def roundConstant (round : Nat) : UInt64 :=
  (List.range 7).foldl
    (fun constant bit =>
      if (shiftRegister (bit + 7 * round)).getLsbD 0 then
        constant ||| ⟨BitVec.twoPow 64 (2 ^ bit - 1)⟩
      else
        constant)
    0

def iota (round : Nat) (lanes : Lanes) : Lanes := fun x y =>
  if x = 0 ∧ y = 0 then lanes x y ^^^ roundConstant round else lanes x y

def round (lanes : Lanes) (index : Nat) : Lanes :=
  iota index (chi (pi (rho (theta lanes))))

/-- The permutation of 1600 bits. -/
def permutation (lanes : Lanes) : Lanes :=
  (List.range 24).foldl round lanes

/-- The padding of a message: a leading one byte, zeros and a closing 128. -/
def padding (rate length : Nat) : List UInt8 :=
  let missing := rate - length % rate
  if missing = 1 then
    [0x81]
  else
    [0x01] ++ List.replicate (missing - 2) 0 ++ [0x80]

/-- The blocks of a padded message. -/
def blocks (rate : Nat) (padded : List UInt8) : List (List UInt8) :=
  (List.range (padded.length / rate)).map fun index =>
    (padded.drop (rate * index)).take rate

/-- The lanes of a block, least significant byte first; the capacity is zero. -/
def blockLanes (block : List UInt8) : Lanes := fun x y =>
  UInt64.ofNat
    (ofLittleEndian ((block.drop (8 * (x.val + 5 * y.val))).take 8))

def absorb (lanes : Lanes) (block : List UInt8) : Lanes :=
  permutation fun x y => lanes x y ^^^ blockLanes block x y

/-- The bytes of a state, lane after lane. -/
def stateBytes (lanes : Lanes) : List UInt8 :=
  (List.finRange 5).flatMap fun y =>
    (List.finRange 5).flatMap fun x =>
      littleEndian 8 (lanes x y).toNat

/-- The first bytes squeezed out, at most one block of them. -/
def sponge (rate : Nat) (message : List UInt8) (length : Nat) : List UInt8 :=
  let padded := message ++ padding rate message.length
  (stateBytes ((blocks rate padded).foldl absorb fun _ _ => 0)).take length

section Padded

variable {rate : Nat}

/-- The padding fills the last block. -/
theorem length_padding
    (positive : 0 < rate)
    (length : Nat) :
    (padding rate length).length = rate - length % rate := by
  have less := Nat.mod_lt length positive
  rw [padding]
  split_ifs with single
  · simpa using single.symm
  · simp only [List.length_append, List.length_cons, List.length_nil,
      List.length_replicate]
    omega

/-- A whole block of the message does not change the padding. -/
theorem padding_sub
    {length : Nat}
    (whole : rate ≤ length) :
    padding rate (length - rate) = padding rate length := by
  rw [padding, padding, ← Nat.mod_eq_sub_mod whole]

/-- The first block comes before those of the rest. -/
theorem blocks_cons
    {padded : List UInt8}
    (positive : 0 < rate)
    (whole : rate ≤ padded.length) :
    blocks rate padded =
      padded.take rate :: blocks rate (padded.drop rate) := by
  have count : padded.length / rate = (padded.length - rate) / rate + 1 := by
    rw [Nat.div_eq_sub_div positive whole]
  rw [blocks, blocks, count, List.range_succ_eq_map, List.map_cons, List.map_map,
    List.length_drop, Nat.mul_zero, List.drop_zero]
  refine congrArg _ (List.map_congr_left fun index _ => ?_)
  rw [List.drop_drop]
  simp only [Function.comp_apply, Nat.mul_succ, Nat.add_comm]

@[simp] theorem blocks_nil : blocks rate [] = [] := by
  simp [blocks]

end Padded

section Evaluation

-- Reduction is lazy: after 24 rounds an unevaluated lane is a term as deep as all
-- of them.  So the lanes are reduced to numbers several times in a round, and a
-- table of these numbers stands for them from then on.

variable {α : Type}

/-- Go on with the value of a number. -/
def withValue (number : Nat) (next : Nat → α) : α :=
  match number with
  | 0 => next 0
  | number + 1 => next (number + 1)

theorem withValue_eq (number : Nat) (next : Nat → α) :
    withValue number next = next number := by
  cases number <;> rfl

/-- Go on with the values of some lanes. -/
def withLanes : List UInt64 → (List UInt64 → α) → α
  | [], next => next []
  | lane :: rest, next =>
      withValue lane.toNat fun value =>
        withLanes rest fun rest => next (UInt64.ofNat value :: rest)

theorem withLanes_eq (lanes : List UInt64) (next : List UInt64 → α) :
    withLanes lanes next = next lanes := by
  induction lanes generalizing next with
  | nil => rfl
  | cons lane rest inductionHypothesis =>
      rw [withLanes, withValue_eq, inductionHypothesis, UInt64.ofNat_toNat]

/-- The lanes of a state, row after row. -/
def laneTable (lanes : Lanes) : List UInt64 :=
  [lanes 0 0, lanes 1 0, lanes 2 0, lanes 3 0, lanes 4 0,
    lanes 0 1, lanes 1 1, lanes 2 1, lanes 3 1, lanes 4 1,
    lanes 0 2, lanes 1 2, lanes 2 2, lanes 3 2, lanes 4 2,
    lanes 0 3, lanes 1 3, lanes 2 3, lanes 3 3, lanes 4 3,
    lanes 0 4, lanes 1 4, lanes 2 4, lanes 3 4, lanes 4 4]

def tableLanes (table : List UInt64) : Lanes := fun x y =>
  table.getD (x.val + 5 * y.val) 0

theorem tableLanes_laneTable (lanes : Lanes) :
    tableLanes (laneTable lanes) = lanes := by
  funext x y
  fin_cases x <;> fin_cases y <;> rfl

/-- Go on with a state whose lanes are evaluated. -/
def withState (lanes : Lanes) (next : Lanes → α) : α :=
  withLanes (laneTable lanes) fun table => next (tableLanes table)

theorem withState_eq (lanes : Lanes) (next : Lanes → α) :
    withState lanes next = next lanes := by
  rw [withState, withLanes_eq, tableLanes_laneTable]

/-- The mapping theta with the columns at hand. -/
def mixedLanes (columns : Fin 5 → UInt64) (lanes : Lanes) : Lanes := fun x y =>
  lanes x y ^^^ (columns (x - 1) ^^^ rotate (columns (x + 1)) 1)

/-- Go on with the columns of a state, evaluated. -/
def withColumns (lanes : Lanes) (next : (Fin 5 → UInt64) → α) : α :=
  withLanes [column lanes 0, column lanes 1, column lanes 2, column lanes 3,
      column lanes 4] fun table =>
    next fun x => table.getD x.val 0

theorem withColumns_eq (lanes : Lanes) (next : (Fin 5 → UInt64) → α) :
    withColumns lanes next = next (column lanes) := by
  rw [withColumns, withLanes_eq]
  congr 1
  funext x
  fin_cases x <;> rfl

/-- The mapping iota with the constant at hand. -/
def markedLanes (constant : UInt64) (lanes : Lanes) : Lanes := fun x y =>
  if x = 0 ∧ y = 0 then lanes x y ^^^ constant else lanes x y

/-- Go on with the state after the rounds of some constants. -/
def withRounds : List UInt64 → Lanes → (Lanes → α) → α
  | [], lanes, next => next lanes
  | constant :: rest, lanes, next =>
      withColumns lanes fun columns =>
        withState (pi (rho (mixedLanes columns lanes))) fun moved =>
          withState (markedLanes constant (chi moved)) fun lanes =>
            withRounds rest lanes next

theorem withRounds_eq
    (indices : List Nat)
    (lanes : Lanes)
    (next : Lanes → α) :
    withRounds (indices.map roundConstant) lanes next =
      next (indices.foldl round lanes) := by
  induction indices generalizing lanes with
  | nil => rfl
  | cons index rest inductionHypothesis =>
      have mixed : mixedLanes (column lanes) lanes = theta lanes := rfl
      have marked (moved : Lanes) :
          markedLanes (roundConstant index) moved = iota index moved := rfl
      rw [List.map_cons, withRounds, withColumns_eq, withState_eq, withState_eq,
        inductionHypothesis, List.foldl_cons, mixed, marked, round]

section Constants

variable (constants : List UInt64)

/-- Go on with the state after some blocks. -/
def withBlocks : List (List UInt8) → Lanes → (Lanes → α) → α
  | [], lanes, next => next lanes
  | block :: rest, lanes, next =>
      withState (fun x y => lanes x y ^^^ blockLanes block x y) fun combined =>
        withRounds constants combined fun lanes =>
          withBlocks rest lanes next

/-- The sponge with a table of constants, every state evaluated on the way. -/
def evaluatedSponge
    (rate : Nat)
    (message : List UInt8)
    (length : Nat) :
    List UInt8 :=
  withBlocks constants (blocks rate (message ++ padding rate message.length))
    (fun _ _ => 0) fun lanes => (stateBytes lanes).take length

variable (table : constants = (List.range 24).map roundConstant)

include table

theorem withBlocks_eq
    (blocks : List (List UInt8))
    (lanes : Lanes)
    (next : Lanes → α) :
    withBlocks constants blocks lanes next = next (blocks.foldl absorb lanes) := by
  induction blocks generalizing lanes with
  | nil => rfl
  | cons block rest inductionHypothesis =>
      rw [withBlocks, withState_eq, table, withRounds_eq, ← table,
        inductionHypothesis, List.foldl_cons, absorb, permutation]

theorem evaluatedSponge_eq
    (rate : Nat)
    (message : List UInt8)
    (length : Nat) :
    evaluatedSponge constants rate message length = sponge rate message length :=
  withBlocks_eq constants table ..

end Constants

end Evaluation

end Keccak

end Foundation
