import ZanoP2pool.CryptoHash

namespace ZanoP2pool

open Foundation

/-!
# The hash function is Keccak

Each loop of the permutation is one step mapping of the specification on the
lanes of the state, the walk being rho and pi together.  The loop over blocks is
then the sponge, and the last block is the padded rest of the message.
-/

section Lanes

/-- The index of a lane in the array of the program. -/
def laneIndex (x y : Fin 5) : Fin 25 :=
  ⟨x.val + 5 * y.val, by omega⟩

/-- The lanes an array holds. -/
def lanesOf (state : Vector UInt64 25) : Keccak.Lanes := fun x y =>
  state[laneIndex x y]

theorem rotl64_eq_rotate
    (value : UInt64)
    {shift : Nat}
    (positive : 0 < shift)
    (small : shift < 64) :
    rotl64 value shift = Keccak.rotate value shift := by
  apply UInt64.toBitVec_inj.mp
  have left : (UInt64.ofNat shift).toBitVec.toNat = shift := by
    simp
    omega
  have right : (UInt64.ofNat (64 - shift)).toBitVec.toNat = 64 - shift := by
    simp
    omega
  have width : BitVec.toNat (64 : BitVec 64) = 64 := rfl
  rw [rotl64, Keccak.rotate, UInt64.toBitVec_or, UInt64.toBitVec_shiftLeft,
    UInt64.toBitVec_shiftRight, BitVec.rotateLeft_def, Nat.mod_eq_of_lt small]
  simp only [BitVec.shiftLeft_eq', BitVec.ushiftRight_eq', BitVec.toNat_umod, left,
    right, width]
  rw [Nat.mod_eq_of_lt small, Nat.mod_eq_of_lt (by omega : 64 - shift < 64)]

end Lanes

section Theta

variable (state : Vector UInt64 25) (bc : Vector UInt64 5)

/-- The scratch words become the parities of the columns. -/
theorem columnParities_eq :
    ∃ parities : Vector UInt64 5,
      columnParities state bc = some parities ∧
        ∀ x : Fin 5, parities[x] = Keccak.column (lanesOf state) x := by
  obtain ⟨parities, run, written, _⟩ :
      ∃ parities : Vector UInt64 5,
        columnParities state bc = some parities ∧
          (∀ index ∈ List.range 5, ∀ key : Fin 5, key.val = index →
            parities[key] =
              Keccak.column (lanesOf state) (Fin.ofNat 5 index)) ∧
          ∀ key : Fin 5, (∀ index ∈ List.range 5, ¬ key.val = index) →
            parities[key] = bc[key] := by
    refine foldlM_updates id (fun index _ =>
      Keccak.column (lanesOf state) (Fin.ofNat 5 index)) bc
      (fun index member => List.mem_range.mp member) ?_
      (List.pairwise_lt_range.imp Nat.ne_of_lt)
    rintro _ _ words key rfl
    have small := key.isLt
    rw [getElem?_eq_some state (by omega : key.val < 25),
      getElem?_eq_some state (by omega : key.val + 5 < 25),
      getElem?_eq_some state (by omega : key.val + 10 < 25),
      getElem?_eq_some state (by omega : key.val + 15 < 25),
      getElem?_eq_some state (by omega : key.val + 20 < 25)]
    have column : Fin.ofNat 5 key.val = key :=
      Fin.ext (Nat.mod_eq_of_lt small)
    rw [column]
    rfl
  refine ⟨parities, run, fun x => ?_⟩
  rw [written x.val (List.mem_range.mpr x.isLt) x rfl]
  congr 1
  exact Fin.ext (Nat.mod_eq_of_lt x.isLt)

/-- Mixing the parities into the columns is theta. -/
theorem mixColumns_eq
    (parities : Vector UInt64 5)
    (counted : ∀ x : Fin 5, parities[x] = Keccak.column (lanesOf state) x) :
    ∃ mixed : Vector UInt64 25,
      mixColumns state parities = some mixed ∧
        lanesOf mixed = Keccak.theta (lanesOf state) := by
  have parity :
      ∀ index, parities[index % 5]? =
        some (Keccak.column (lanesOf state) (Fin.ofNat 5 index)) := by
    intro index
    have small : index % 5 < 5 := Nat.mod_lt _ (by omega)
    exact (getElem?_eq_some parities small).trans
      (congrArg some (counted (Fin.ofNat 5 index)))
  let mix : Nat → UInt64 := fun index =>
    Keccak.column (lanesOf state) (Fin.ofNat 5 (index + 4)) ^^^
      Keccak.rotate (Keccak.column (lanesOf state) (Fin.ofNat 5 (index + 1))) 1
  obtain ⟨mixed, run, written, _⟩ :
      ∃ mixed : Vector UInt64 25,
        mixColumns state parities = some mixed ∧
          (∀ index ∈ List.range 5, ∀ key : Fin 25, key.val % 5 = index →
            mixed[key] = state[key] ^^^ mix (key.val % 5)) ∧
          ∀ key : Fin 25, (∀ index ∈ List.range 5, ¬ key.val % 5 = index) →
            mixed[key] = state[key] := by
    refine foldlM_blocks (fun (words : Vector UInt64 25) (key : Fin 25) => words[key])
      ?_ (List.pairwise_lt_range.imp fun less key first second => by omega)
    intro index member words untouched
    have small := List.mem_range.mp member
    simp only [parity, Option.bind_eq_bind, Option.bind_some,
      rotl64_eq_rotate _ (by omega : 0 < 1) (by omega : 1 < 64)]
    obtain ⟨next, inner, changed, kept⟩ :
        ∃ next : Vector UInt64 25,
          rowStarts.foldlM
              (fun state row => do
                let lane ← state[row + index]?
                store state (row + index) (lane ^^^ mix index)) words =
            some next ∧
            (∀ row ∈ rowStarts, ∀ key : Fin 25, key.val = row + index →
              next[key] = words[key] ^^^ mix index) ∧
            ∀ key : Fin 25, (∀ row ∈ rowStarts, ¬ key.val = row + index) →
              next[key] = words[key] := by
      refine foldlM_updates (fun row => row + index)
        (fun _ lane => lane ^^^ mix index) words ?_ ?_ ?_
      · intro row inRows
        simp only [rowStarts, List.mem_cons, List.not_mem_nil, or_false] at inRows
        show row + index < 25
        omega
      · intro row _ state key hit
        simp only [← hit]
        rw [getElem?_eq_some state key.isLt]
        rfl
      · simp [rowStarts]
    have rows :
        ∀ key : Fin 25, key.val % 5 = index ↔
          ∃ row ∈ rowStarts, key.val = row + index := by
      intro key
      simp only [rowStarts, List.mem_cons, List.not_mem_nil, or_false,
        exists_eq_or_imp, exists_eq_left]
      omega
    refine ⟨next, inner, ?_, ?_⟩
    · intro key here
      obtain ⟨row, inRows, hit⟩ := (rows key).mp here
      rw [changed row inRows key hit, here]
      exact congrArg (· ^^^ mix index) (untouched key here)
    · intro key other
      exact kept key fun row inRows hit => other ((rows key).mpr ⟨row, inRows, hit⟩)
  refine ⟨mixed, run, ?_⟩
  funext x y
  have column : (laneIndex x y).val % 5 = x.val := by
    simp only [laneIndex]
    omega
  have previous : ∀ x : Fin 5, Fin.ofNat 5 (x.val + 4) = x - 1 := by
    decide
  have next : ∀ x : Fin 5, Fin.ofNat 5 (x.val + 1) = x + 1 := by
    decide
  show mixed[laneIndex x y] = _
  rw [written x.val (List.mem_range.mpr x.isLt) _ column, column]
  simp only [mix, previous, next]
  rfl

end Theta

section RhoPi

/-- The slot that a step of the walk writes. -/
def piSlot (index : Nat) : Fin 25 :=
  Fin.ofNat 25 (kPiLane[index]?.getD 0)

/-- The slot whose lane the walk carries into a step. -/
def sourceSlot : Nat → Fin 25
  | 0 => 1
  | index + 1 => piSlot index

/-- The rotation of a step of the walk. -/
def walkShift (index : Nat) : Nat :=
  kRotationConstants[index]?.getD 0

theorem kPiLane_getElem? :
    ∀ index : Fin 24, kPiLane[index.val]? = some (piSlot index.val).val := by
  decide

theorem kRotationConstants_getElem? :
    ∀ index : Fin 24, kRotationConstants[index.val]? = some (walkShift index.val) := by
  decide

/-- The walk visits each slot once. -/
theorem piSlot_injective :
    ∀ first second : Fin 24,
      piSlot first.val = piSlot second.val → first = second := by
  decide +kernel

/-- The walk leaves the first lane alone, as pi and the offset of rho do. -/
theorem piSlot_ne_first :
    ∀ index : Fin 24, piSlot index.val ≠ laneIndex 0 0 := by
  decide +kernel

/-- Each other lane is reached from the lane pi takes, with the offset of rho. -/
theorem walk_tables :
    ∀ x y : Fin 5, ¬ (x = 0 ∧ y = 0) →
      ∃ index : Fin 24,
        piSlot index.val = laneIndex x y ∧
          sourceSlot index.val = laneIndex (x + 3 * y) x ∧
          walkShift index.val = Keccak.rhoOffset (x + 3 * y) x ∧
          0 < walkShift index.val ∧ walkShift index.val < 64 := by
  decide +kernel

theorem rotate_zero (value : UInt64) :
    Keccak.rotate value 0 = value := by
  apply UInt64.toBitVec_inj.mp
  have empty : value.toBitVec >>> 64 = 0 := BitVec.ushiftRight_eq_zero (by omega)
  simp [Keccak.rotate, BitVec.rotateLeft_def, empty]

theorem carried_sourceSlot
    (state : Vector UInt64 25)
    (index : Nat) :
    carried piSlot state state[sourceSlot 0] index = state[sourceSlot index] := by
  cases index with
  | zero => rfl
  | succ index => rfl

/-- The walk through the lanes is rho followed by pi. -/
theorem moveLanes_eq
    (state : Vector UInt64 25) :
    ∃ moved : Vector UInt64 25,
      moveLanes state = some moved ∧
        lanesOf moved = Keccak.pi (Keccak.rho (lanesOf state)) := by
  have first : state[1]? = some state[sourceSlot 0] := by
    rw [getElem?_eq_some state (by omega : 1 < 25)]
    rfl
  obtain ⟨moved, run, written, kept⟩ :
      ∃ moved : Vector UInt64 25,
        (List.range 24).foldlM moveLane (state, state[sourceSlot 0]) =
            some (moved, carried piSlot state state[sourceSlot 0] 24) ∧
          (∀ index < 24,
            moved[piSlot index] =
              rotl64 (carried piSlot state state[sourceSlot 0] index)
                (walkShift index)) ∧
          ∀ key : Fin 25, (∀ index < 24, piSlot index ≠ key) →
            moved[key] = state[key] := by
    refine foldlM_walk piSlot (fun index lane => rotl64 lane (walkShift index)) state
      state[sourceSlot 0] ?_ ?_
    · intro index small moving
      simp only [moveLane, kPiLane_getElem? ⟨index, small⟩,
        kRotationConstants_getElem? ⟨index, small⟩, Option.bind_eq_bind,
        Option.bind_some]
      rw [getElem?_eq_some moving.1 (piSlot index).isLt, Option.bind_some,
        store_eq_some moving.1 (piSlot index).isLt, Option.bind_some]
      rfl
    · intro one oneSmall two twoSmall same
      exact congrArg Fin.val (piSlot_injective ⟨one, oneSmall⟩ ⟨two, twoSmall⟩ same)
  refine ⟨moved, ?_, ?_⟩
  · rw [moveLanes, first, Option.bind_eq_bind, Option.bind_some, run]
    rfl
  funext x y
  by_cases corner : x = 0 ∧ y = 0
  · obtain ⟨rfl, rfl⟩ := corner
    have stays :=
      kept (laneIndex 0 0) fun index small => piSlot_ne_first ⟨index, small⟩
    have offset : Keccak.rhoOffset (0 + 3 * 0) 0 = 0 := by
      decide
    rw [Keccak.pi, Keccak.rho, offset, rotate_zero]
    exact stays
  · obtain ⟨index, target, source, offset, positive, small⟩ :=
      walk_tables x y corner
    have arrived := written index.val index.isLt
    rw [carried_sourceSlot, rotl64_eq_rotate _ positive small, offset] at arrived
    simp only [target, source] at arrived
    exact arrived

end RhoPi

section Chi

/-- The scratch words become a row of the state. -/
theorem copyRow_eq
    (state : Vector UInt64 25)
    (bc : Vector UInt64 5)
    (y : Fin 5) :
    ∃ row : Vector UInt64 5,
      copyRow state bc (5 * y.val) = some row ∧
        ∀ x : Fin 5, row[x] = lanesOf state x y := by
  obtain ⟨row, run, written, _⟩ :
      ∃ row : Vector UInt64 5,
        copyRow state bc (5 * y.val) = some row ∧
          (∀ index ∈ List.range 5, ∀ key : Fin 5, key.val = index →
            row[key] = lanesOf state (Fin.ofNat 5 index) y) ∧
          ∀ key : Fin 5, (∀ index ∈ List.range 5, ¬ key.val = index) →
            row[key] = bc[key] := by
    refine foldlM_updates id (fun index _ => lanesOf state (Fin.ofNat 5 index) y) bc
      (fun index member => List.mem_range.mp member) ?_
      (List.pairwise_lt_range.imp Nat.ne_of_lt)
    rintro _ _ words key rfl
    have small := key.isLt
    have column : Fin.ofNat 5 key.val = key := Fin.ext (Nat.mod_eq_of_lt small)
    have index : 5 * y.val + key.val = (laneIndex key y).val := by
      simp only [laneIndex]
      omega
    simp only [index, column]
    rw [getElem?_eq_some state (laneIndex key y).isLt]
    rfl
  refine ⟨row, run, fun x => ?_⟩
  rw [written x.val (List.mem_range.mpr x.isLt) x rfl]
  congr 1
  exact Fin.ext (Nat.mod_eq_of_lt x.isLt)

/-- A row is combined with the copies of its words. -/
theorem combineRow_eq
    (state : Vector UInt64 25)
    (row : Vector UInt64 5)
    (y : Fin 5)
    (copied : ∀ x : Fin 5, row[x] = lanesOf state x y) :
    ∃ combined : Vector UInt64 25,
      combineRow state row (5 * y.val) = some combined ∧
        (∀ x, combined[laneIndex x y] = Keccak.chi (lanesOf state) x y) ∧
        ∀ key : Fin 25, ¬ key.val / 5 = y.val → combined[key] = state[key] := by
  have copy :
      ∀ index, row[index % 5]? = some (lanesOf state (Fin.ofNat 5 index) y) := by
    intro index
    have small : index % 5 < 5 := Nat.mod_lt _ (by omega)
    exact (getElem?_eq_some row small).trans
      (congrArg some (copied (Fin.ofNat 5 index)))
  let mask : Nat → UInt64 := fun index =>
    ~~~lanesOf state (Fin.ofNat 5 (index + 1)) y &&&
      lanesOf state (Fin.ofNat 5 (index + 2)) y
  obtain ⟨combined, run, written, kept⟩ :
      ∃ combined : Vector UInt64 25,
        combineRow state row (5 * y.val) = some combined ∧
          (∀ index ∈ List.range 5, ∀ key : Fin 25, key.val = 5 * y.val + index →
            combined[key] = state[key] ^^^ mask index) ∧
          ∀ key : Fin 25,
            (∀ index ∈ List.range 5, ¬ key.val = 5 * y.val + index) →
            combined[key] = state[key] := by
    refine foldlM_updates (fun index => 5 * y.val + index)
      (fun index lane => lane ^^^ mask index) state ?_ ?_ ?_
    · intro index member
      have small := List.mem_range.mp member
      show 5 * y.val + index < 25
      omega
    · intro index _ words key hit
      simp only [← hit, copy, Option.bind_eq_bind, Option.bind_some]
      rw [getElem?_eq_some words key.isLt]
      rfl
    · exact List.pairwise_lt_range.imp fun less same => by omega
  refine ⟨combined, run, ?_, ?_⟩
  · intro x
    have next : ∀ x : Fin 5, Fin.ofNat 5 (x.val + 1) = x + 1 := by
      decide
    have afterNext : ∀ x : Fin 5, Fin.ofNat 5 (x.val + 2) = x + 2 := by
      decide
    rw [written x.val (List.mem_range.mpr x.isLt) (laneIndex x y)
      (by simp only [laneIndex]; omega)]
    simp only [mask, next, afterNext]
    rfl
  · intro key other
    refine kept key fun index member hit => other ?_
    have small := List.mem_range.mp member
    omega

/-- Combining row after row is chi. -/
theorem combineRows_eq
    (state : Vector UInt64 25)
    (bc : Vector UInt64 5) :
    ∃ combined : Vector UInt64 25 × Vector UInt64 5,
      combineRows state bc = some combined ∧
        lanesOf combined.1 = Keccak.chi (lanesOf state) := by
  obtain ⟨combined, run, written, _⟩ :
      ∃ combined : Vector UInt64 25 × Vector UInt64 5,
        combineRows state bc = some combined ∧
          (∀ row ∈ rowStarts, ∀ key : Fin 5 × Fin 5, 5 * key.2.val = row →
            lanesOf combined.1 key.1 key.2 =
              Keccak.chi (lanesOf state) key.1 key.2) ∧
          ∀ key : Fin 5 × Fin 5, (∀ row ∈ rowStarts, ¬ 5 * key.2.val = row) →
            lanesOf combined.1 key.1 key.2 = lanesOf state key.1 key.2 := by
    refine foldlM_blocks
      (fun (pair : Vector UInt64 25 × Vector UInt64 5) (key : Fin 5 × Fin 5) =>
        lanesOf pair.1 key.1 key.2) ?_ ?_
    · rintro row inRows ⟨words, scratch⟩ untouched
      have rows : ∀ row ∈ rowStarts, ∃ y : Fin 5, 5 * y.val = row := by
        decide
      obtain ⟨y, rfl⟩ := rows row inRows
      obtain ⟨copied, copyRun, copies⟩ := copyRow_eq words scratch y
      obtain ⟨next, combineRun, changed, kept⟩ :=
        combineRow_eq words copied y copies
      refine ⟨(next, copied), ?_, ?_, ?_⟩
      · simp only [copyRun, combineRun, Option.bind_eq_bind, Option.bind_some]
        rfl
      · rintro ⟨x, z⟩ here
        have same : z = y := Fin.ext (by simp only at here; omega)
        subst same
        have row : ∀ x, lanesOf words x z = lanesOf state x z := fun x =>
          untouched (x, z) rfl
        show next[laneIndex x z] = _
        rw [changed x, Keccak.chi, Keccak.chi, row, row, row]
      · rintro ⟨x, z⟩ other
        refine kept (laneIndex x z) fun same => other ?_
        simp only [laneIndex] at same ⊢
        omega
    · have apart : rowStarts.Pairwise (· ≠ ·) := by
        decide
      exact apart.imp fun different key first second =>
        different (first.symm.trans second)
  refine ⟨combined, run, ?_⟩
  funext x y
  have inRows : ∀ y : Fin 5, 5 * y.val ∈ rowStarts := by
    decide
  exact written _ (inRows y) (x, y) rfl

end Chi

section Rounds

theorem kRoundConstants_getElem? :
    ∀ round : Fin 24,
      kRoundConstants[round.val]? = some (Keccak.roundConstant round.val) := by
  decide +kernel

/-- One pass of the loop is one round. -/
theorem keccakRound_eq
    (state : Vector UInt64 25)
    (bc : Vector UInt64 5)
    {round : Nat}
    (small : round < 24) :
    ∃ next : Vector UInt64 25 × Vector UInt64 5,
      keccakRound state bc round = some next ∧
        lanesOf next.1 = Keccak.round (lanesOf state) round := by
  obtain ⟨parities, paritiesRun, counted⟩ := columnParities_eq state bc
  obtain ⟨mixed, mixedRun, theta⟩ := mixColumns_eq state parities counted
  obtain ⟨moved, movedRun, pi⟩ := moveLanes_eq mixed
  obtain ⟨⟨combined, scratch⟩, combinedRun, chi⟩ := combineRows_eq moved parities
  have first : combined[0]? = some combined[laneIndex 0 0] :=
    getElem?_eq_some combined (by omega : 0 < 25)
  refine ⟨(combined.set 0
    (combined[laneIndex 0 0] ^^^ Keccak.roundConstant round) (by omega), scratch),
    ?_, ?_⟩
  · have constant : kRoundConstants[round]? = some (Keccak.roundConstant round) :=
      kRoundConstants_getElem? ⟨round, small⟩
    rw [keccakRound, paritiesRun, Option.bind_eq_bind, Option.bind_some, mixedRun,
      Option.bind_eq_bind, Option.bind_some, movedRun, Option.bind_eq_bind,
      Option.bind_some, combinedRun, Option.bind_eq_bind, Option.bind_some]
    dsimp only
    rw [first, Option.bind_some, constant, Option.bind_some,
      store_eq_some combined (by omega : 0 < 25)]
    rfl
  · funext x y
    rw [Keccak.round, ← theta, ← pi, ← chi, Keccak.iota]
    have read := set_getElem combined (laneIndex 0 0) (laneIndex x y)
      (combined[laneIndex 0 0] ^^^ Keccak.roundConstant round)
    by_cases corner : x = 0 ∧ y = 0
    · obtain ⟨rfl, rfl⟩ := corner
      rw [if_pos rfl] at read
      rw [if_pos ⟨rfl, rfl⟩]
      exact read
    · have other : ∀ x y : Fin 5, laneIndex x y = laneIndex 0 0 → x = 0 ∧ y = 0 := by
        decide
      rw [if_neg fun same => corner (other x y same)] at read
      rw [if_neg corner]
      exact read

/-- Rounds of the program one after the other are those rounds. -/
theorem foldlM_keccakRound
    (indices : List Nat)
    (state : Vector UInt64 25)
    (bc : Vector UInt64 5)
    (small : ∀ round ∈ indices, round < 24) :
    ∃ final : Vector UInt64 25 × Vector UInt64 5,
      indices.foldlM (fun (state, bc) round => keccakRound state bc round)
          (state, bc) =
        some final ∧
        lanesOf final.1 = indices.foldl Keccak.round (lanesOf state) := by
  induction indices generalizing state bc with
  | nil => exact ⟨(state, bc), rfl, rfl⟩
  | cons round rest inductionHypothesis =>
      obtain ⟨⟨next, scratch⟩, run, lanes⟩ :=
        keccakRound_eq state bc (small round (List.mem_cons_self ..))
      obtain ⟨final, later, finalLanes⟩ :=
        inductionHypothesis next scratch fun other member =>
          small other (List.mem_cons_of_mem round member)
      refine ⟨final, ?_, ?_⟩
      · simp only [List.foldlM_cons, run]
        exact later
      · rw [finalLanes, lanes, List.foldl_cons]

/-- The permutation of the program is the permutation of 24 rounds. -/
theorem keccakF1600_eq
    (state : Vector UInt64 25) :
    ∃ final : Vector UInt64 25,
      keccakF1600 state = some final ∧
        lanesOf final = Keccak.permutation (lanesOf state) := by
  obtain ⟨final, run, lanes⟩ :=
    foldlM_keccakRound (List.range 24) state (Vector.replicate 5 0)
      fun round member => List.mem_range.mp member
  refine ⟨final.1, ?_, lanes⟩
  rw [keccakF1600, run]
  rfl

end Rounds

section Words

/-- Combining a word with the next byte adds the byte at its place. -/
theorem toNat_or_byte
    {lower count : Nat}
    (byte : UInt8)
    (small : count < 8)
    (below : lower < 2 ^ (8 * count)) :
    (UInt64.ofNat lower ||| byte.toUInt64 <<< UInt64.ofNat (8 * count)).toNat =
      (UInt64.ofNat (lower + 2 ^ (8 * count) * byte.toNat)).toNat := by
  have byteSmall := byte.toNat_lt
  have product : 2 ^ (8 * count) * byte.toNat + 2 ^ (8 * count) ≤ 2 ^ 64 :=
    calc
      2 ^ (8 * count) * byte.toNat + 2 ^ (8 * count) =
          2 ^ (8 * count) * (byte.toNat + 1) := by ring
      _ ≤ 2 ^ (8 * count) * 2 ^ 8 := Nat.mul_le_mul_left _ (by omega)
      _ = 2 ^ (8 * count + 8) := (pow_add 2 _ _).symm
      _ ≤ 2 ^ 64 := Nat.pow_le_pow_right (by omega) (by omega)
  have positive : 0 < 2 ^ (8 * count) := by positivity
  have amount : (UInt64.ofNat (8 * count)).toNat % 64 = 8 * count := by
    simp
    omega
  rw [UInt64.toNat_or, UInt64.toNat_shiftLeft, amount, UInt64.toNat_ofNat',
    UInt64.toNat_ofNat', UInt8.toNat_toUInt64, Nat.shiftLeft_eq,
    Nat.mod_eq_of_lt (by omega : lower < 2 ^ 64), Nat.mul_comm byte.toNat,
    Nat.mod_eq_of_lt (by omega : 2 ^ (8 * count) * byte.toNat < 2 ^ 64),
    Nat.mod_eq_of_lt (by omega : lower + 2 ^ (8 * count) * byte.toNat < 2 ^ 64),
    Nat.or_comm, ← Nat.two_pow_add_eq_or_of_lt below, Nat.add_comm]

/-- A loaded word is the number its eight bytes spell. -/
theorem loadLe64_eq
    {bytes : List UInt8}
    {offset : Nat}
    (within : offset + 8 ≤ bytes.length) :
    loadLe64 bytes offset =
      some (UInt64.ofNat (ofLittleEndian ((bytes.drop offset).take 8))) := by
  -- The induction carries the value of the bytes read so far.
  have loop :
      ∀ count ≤ 8,
        (List.range count).foldlM
            (fun value index => do
              let byte ← bytes[offset + index]?
              return value ||| (byte.toUInt64 <<< UInt64.ofNat (8 * index)))
            (0 : UInt64) =
          some (UInt64.ofNat (ofLittleEndian ((bytes.drop offset).take count))) := by
    intro count
    induction count with
    | zero => exact fun _ => rfl
    | succ count inductionHypothesis =>
        intro small
        have inside : offset + count < bytes.length := by omega
        have taken :
            (bytes.drop offset).take (count + 1) =
              (bytes.drop offset).take count ++ [bytes[offset + count]] := by
          rw [List.take_add_one, List.getElem?_drop,
            List.getElem?_eq_getElem inside]
          rfl
        have length : ((bytes.drop offset).take count).length = count := by
          rw [List.length_take, List.length_drop]
          omega
        have lower := ofLittleEndian_lt ((bytes.drop offset).take count)
        rw [length] at lower
        rw [List.range_succ, List.foldlM_append, inductionHypothesis (by omega)]
        simp only [Option.bind_eq_bind, Option.bind_some, List.foldlM_cons,
          List.foldlM_nil, List.getElem?_eq_getElem inside, taken,
          ofLittleEndian_concat, length]
        refine congrArg some (UInt64.toNat_inj.mp ?_)
        exact toNat_or_byte _ (by omega) lower
  exact loop 8 (le_refl 8)

/-- A stored word fills eight bytes. -/
theorem storeLe64_eq
    {size : Nat}
    (bytes : Vector UInt8 size)
    {offset : Nat}
    (within : offset + 8 ≤ size)
    (value : UInt64) :
    ∃ final : Vector UInt8 size,
      storeLe64 bytes offset value = some final ∧
        (∀ index ∈ List.range 8, ∀ key : Fin size, key.val = offset + index →
          final[key] = UInt8.ofNat (value.toNat / 2 ^ (8 * index))) ∧
        ∀ key : Fin size, (∀ index ∈ List.range 8, ¬ key.val = offset + index) →
          final[key] = bytes[key] := by
  have byte :
      ∀ index ∈ List.range 8,
        (value >>> UInt64.ofNat (8 * index)).toUInt8 =
          UInt8.ofNat (value.toNat / 2 ^ (8 * index)) := by
    intro index member
    have small := List.mem_range.mp member
    have amount : (UInt64.ofNat (8 * index)).toNat % 64 = 8 * index := by
      simp
      omega
    apply UInt8.toNat_inj.mp
    rw [UInt64.toNat_toUInt8, UInt64.toNat_shiftRight, amount,
      Nat.shiftRight_eq_div_pow, UInt8.toNat_ofNat']
  refine foldlM_updates (fun index => offset + index)
    (fun index _ => UInt8.ofNat (value.toNat / 2 ^ (8 * index))) bytes ?_ ?_ ?_
  · intro index member
    have small := List.mem_range.mp member
    show offset + index < size
    omega
  · intro index member state key hit
    simp only [byte index member, hit]
  · exact List.pairwise_lt_range.imp fun less same => by omega

end Words

section Absorbing

/-- Absorbing a block combines the first lanes with its words. -/
theorem absorbBlock_eq
    (state : Vector UInt64 25)
    {block : List UInt8}
    (long : 136 ≤ block.length) :
    ∃ next : Vector UInt64 25,
      absorbBlock state block = some next ∧
        lanesOf next = fun x y =>
          lanesOf state x y ^^^ Keccak.blockLanes (block.take 136) x y := by
  let word : Nat → UInt64 := fun index =>
    UInt64.ofNat (ofLittleEndian (((block.take 136).drop (8 * index)).take 8))
  have load :
      ∀ index < 17, loadLe64 block (index * 8) = some (word index) := by
    intro index small
    have whole :
        ((block.take 136).drop (8 * index)).take 8 =
          (block.drop (index * 8)).take 8 := by
      rw [List.drop_take, List.take_take, mul_comm, Nat.min_eq_left (by omega)]
    simp only [word, whole]
    exact loadLe64_eq (by omega)
  obtain ⟨next, run, written, kept⟩ :
      ∃ next : Vector UInt64 25,
        absorbBlock state block = some next ∧
          (∀ index ∈ List.range 17, ∀ key : Fin 25, key.val = index →
            next[key] = state[key] ^^^ word index) ∧
          ∀ key : Fin 25, (∀ index ∈ List.range 17, ¬ key.val = index) →
            next[key] = state[key] := by
    refine foldlM_updates id (fun index lane => lane ^^^ word index) state ?_ ?_
      (List.pairwise_lt_range.imp Nat.ne_of_lt)
    · intro index member
      have small : index < 17 := List.mem_range.mp member
      show index < 25
      omega
    · rintro index member words key rfl
      rw [getElem?_eq_some words key.isLt, load _ (List.mem_range.mp member)]
      rfl
  refine ⟨next, run, ?_⟩
  funext x y
  by_cases inRate : (laneIndex x y).val < 17
  · exact written _ (List.mem_range.mpr inRate) (laneIndex x y) rfl
  · have untouched :=
      kept (laneIndex x y) fun index member same =>
        inRate (same ▸ List.mem_range.mp member)
    have empty :
        ((block.take 136).drop (8 * (x.val + 5 * y.val))).take 8 = [] := by
      simp only [laneIndex] at inRate
      rw [List.drop_eq_nil_of_le (by rw [List.length_take]; omega), List.take_nil]
    have zero : Keccak.blockLanes (block.take 136) x y = 0 := by
      rw [Keccak.blockLanes, empty]
      rfl
    rw [zero, UInt64.xor_zero]
    exact untouched

end Absorbing

section Tail

/-- One byte of the last block. -/
def tailByte (data : List UInt8) (index : Nat) : UInt8 :=
  (if index < data.length then data.getD index 0
    else if index = data.length then 0x01 else 0) |||
    if index = 135 then 0x80 else 0

/-- The bytes after the data are the padding. -/
theorem getElem?_padded
    {data : List UInt8}
    (short : data.length < 136)
    {index : Nat}
    (within : index < 136) :
    (data ++ Keccak.padding 136 data.length)[index]? =
      some (tailByte data index) := by
  unfold tailByte
  by_cases inData : index < data.length
  · have notLast : ¬ index = 135 := by omega
    rw [List.getElem?_append_left inData, if_pos inData, if_neg notLast,
      List.getElem?_eq_getElem inData, List.getD_eq_getElem _ _ inData,
      UInt8.or_zero]
  · have missing : 136 - data.length % 136 = 136 - data.length := by omega
    rw [List.getElem?_append_right (by omega), if_neg inData, Keccak.padding, missing]
    by_cases single : 136 - data.length = 1
    · have first : index = data.length := by omega
      have last : index = 135 := by omega
      rw [if_pos single, if_pos first, if_pos last, first, Nat.sub_self]
      rfl
    · rw [if_neg single]
      by_cases first : index = data.length
      · have notLast : ¬ index = 135 := by omega
        rw [if_pos first, if_neg notLast, first, Nat.sub_self]
        rfl
      · rw [if_neg first]
        by_cases last : index = 135
        · rw [if_pos last, List.getElem?_append_right
            (by simp only [List.length_append, List.length_cons, List.length_nil,
              List.length_replicate]; omega)]
          have only :
              index - data.length -
                  ([0x01] ++ List.replicate (136 - data.length - 2)
                    (0 : UInt8)).length = 0 := by
            simp only [List.length_append, List.length_cons, List.length_nil,
              List.length_replicate]
            omega
          rw [only]
          rfl
        · rw [if_neg last, List.getElem?_append_left
            (by simp only [List.length_append, List.length_cons, List.length_nil,
              List.length_replicate]; omega),
            List.getElem?_append_right
              (by simp only [List.length_cons, List.length_nil]; omega),
            List.getElem?_replicate, if_pos
              (by simp only [List.length_cons, List.length_nil]; omega)]
          rfl

/-- The last block is the data left with its padding. -/
theorem paddedTail_eq
    {data : List UInt8}
    (short : data.length < 136) :
    ∃ tail : Vector UInt8 136,
      paddedTail data = some tail ∧
        tail.toList = data ++ Keccak.padding 136 data.length := by
  obtain ⟨copied, copyRun, written, kept⟩ :
      ∃ copied : Vector UInt8 136,
        (List.range data.length).foldlM
            (fun tail index => do
              let byte ← data[index]?
              store tail index byte)
            (Vector.replicate 136 0) =
          some copied ∧
          (∀ index ∈ List.range data.length, ∀ key : Fin 136, key.val = index →
            copied[key] = data.getD index 0) ∧
          ∀ key : Fin 136, (∀ index ∈ List.range data.length, ¬ key.val = index) →
            copied[key] = (Vector.replicate 136 0)[key] := by
    refine foldlM_updates id (fun index _ => data.getD index 0) _ ?_ ?_
      (List.pairwise_lt_range.imp Nat.ne_of_lt)
    · intro index member
      have small := List.mem_range.mp member
      show index < 136
      omega
    · rintro index member words key rfl
      have inside := List.mem_range.mp member
      rw [List.getElem?_eq_getElem inside, List.getD_eq_getElem _ _ inside]
      rfl
  let marked := copied.set data.length 0x01 short
  have markedRead : ∀ key : Fin 136,
      marked[key] = if key = ⟨data.length, short⟩ then 0x01 else copied[key] :=
    fun key => set_getElem copied ⟨data.length, short⟩ key 0x01
  have plain : ∀ key : Fin 136,
      marked[key] =
        if key.val < data.length then data.getD key.val 0
        else if key.val = data.length then 0x01 else 0 := by
    intro key
    rw [markedRead]
    by_cases inData : key.val < data.length
    · rw [if_neg fun same => Nat.ne_of_lt inData (congrArg Fin.val same),
        if_pos inData]
      exact written _ (List.mem_range.mpr inData) key rfl
    · rw [if_neg inData]
      by_cases first : key.val = data.length
      · rw [if_pos (Fin.ext first), if_pos first]
      · rw [if_neg fun same => first (congrArg Fin.val same), if_neg first,
          kept key fun index member same =>
            inData (same ▸ List.mem_range.mp member)]
        exact Vector.getElem_replicate key.isLt
  let closed := marked.set 135 (marked[135] ||| 0x80)
  have closedRead : ∀ key : Fin 136,
      closed[key] =
        if key = ⟨135, by omega⟩ then marked[135] ||| 0x80 else marked[key] :=
    fun key => set_getElem marked ⟨135, by omega⟩ key _
  refine ⟨closed, ?_, ?_⟩
  · have steps :
        paddedTail data =
          (some copied).bind fun tail =>
            (store tail data.length 0x01).bind fun tail =>
              (tail[135]?).bind fun last => store tail 135 (last ||| 0x80) := by
      rw [← copyRun]
      rfl
    rw [steps, Option.bind_some, store_eq_some copied short, Option.bind_some,
      getElem?_eq_some _ (by omega : 135 < 136), Option.bind_some,
      store_eq_some _ (by omega : 135 < 136)]
  · have length :
        (data ++ Keccak.padding 136 data.length).length = 136 := by
      rw [List.length_append, Keccak.length_padding (by omega)]
      omega
    refine List.ext_getElem? fun index => ?_
    by_cases within : index < 136
    · have entry : closed[(⟨index, within⟩ : Fin 136)] = tailByte data index := by
        rw [closedRead, tailByte]
        by_cases last : index = 135
        · subst last
          rw [if_pos rfl, if_pos rfl]
          exact congrArg (· ||| 0x80) (plain ⟨135, within⟩)
        · rw [if_neg fun same => last (congrArg Fin.val same), if_neg last, plain,
            UInt8.or_zero]
      rw [getElem?_padded short within, ← entry, Vector.getElem?_toList]
      exact getElem?_eq_some closed within
    · rw [List.getElem?_eq_none (by simpa using within),
        List.getElem?_eq_none (by omega)]

end Tail

section Sponge

/-- One pass of the loop over whole blocks. -/
theorem absorbWhole_whole
    {state : Vector UInt64 25}
    {data : List UInt8}
    (whole : kRate ≤ data.length) :
    absorbWhole state data =
      (absorbBlock state data).bind fun combined =>
        (keccakF1600 combined).bind fun permuted =>
          absorbWhole permuted (data.drop kRate) := by
  rw [absorbWhole, if_pos whole]
  rfl

theorem absorbWhole_short
    {state : Vector UInt64 25}
    {data : List UInt8}
    (short : ¬ kRate ≤ data.length) :
    absorbWhole state data = some (state, data) := by
  rw [absorbWhole, if_neg short]

/-- The loop over whole blocks leaves the last block of the sponge to absorb. -/
theorem absorbWhole_eq
    (state : Vector UInt64 25)
    (data : List UInt8) :
    ∃ (next : Vector UInt64 25) (rest : List UInt8),
      absorbWhole state data = some (next, rest) ∧
        rest.length < 136 ∧
        (Keccak.blocks 136 (data ++ Keccak.padding 136 data.length)).foldl
            Keccak.absorb (lanesOf state) =
          Keccak.absorb (lanesOf next) (rest ++ Keccak.padding 136 rest.length) := by
  induction state, data using absorbWhole.induct with
  | case1 state data whole inductionHypothesis =>
      obtain ⟨combined, combinedRun, combinedLanes⟩ := absorbBlock_eq state whole
      obtain ⟨permuted, permutedRun, permutedLanes⟩ := keccakF1600_eq combined
      obtain ⟨next, rest, run, short, same⟩ := inductionHypothesis permuted
      have absorbed :
          Keccak.absorb (lanesOf state) (data.take 136) = lanesOf permuted := by
        rw [permutedLanes, combinedLanes, Keccak.absorb]
      refine ⟨next, rest, ?_, short, ?_⟩
      · rw [absorbWhole_whole whole, combinedRun, Option.bind_some, permutedRun,
          Option.bind_some, run]
      · have rate : 136 ≤ data.length := whole
        rw [Keccak.blocks_cons (by omega) (by rw [List.length_append]; omega),
          List.foldl_cons, List.take_append_of_le_length rate,
          List.drop_append_of_le_length rate, absorbed, ← same, List.length_drop]
        exact congrArg
          (fun padding =>
            (Keccak.blocks 136 (data.drop 136 ++ padding)).foldl Keccak.absorb
              (lanesOf permuted))
          (Keccak.padding_sub rate).symm
  | case2 state data short =>
      refine ⟨state, data, absorbWhole_short short, Nat.lt_of_not_le short, ?_⟩
      have rate : data.length < 136 := Nat.lt_of_not_le short
      have length :
          (data ++ Keccak.padding 136 data.length).length = 136 := by
        rw [List.length_append, Keccak.length_padding (by omega)]
        omega
      rw [Keccak.blocks_cons (by omega) length.ge, List.drop_eq_nil_of_le length.le,
        Keccak.blocks_nil, List.take_of_length_le length.le, List.foldl_cons,
        List.foldl_nil]

/-- The bytes of the first lanes, one after the other. -/
theorem take_stateBytes (lanes : Keccak.Lanes) :
    (Keccak.stateBytes lanes).take 32 =
      (List.range 4).flatMap fun index =>
        littleEndian 8 (lanes (Fin.ofNat 5 index) 0).toNat := by
  have split :
      Keccak.stateBytes lanes =
        ((List.range 4).flatMap fun index =>
            littleEndian 8 (lanes (Fin.ofNat 5 index) 0).toNat) ++
          (littleEndian 8 (lanes 4 0).toNat ++
            ([1, 2, 3, 4] : List (Fin 5)).flatMap fun y =>
              (List.finRange 5).flatMap fun x =>
                littleEndian 8 (lanes x y).toNat) := by
    rfl
  rw [split, List.take_left']
  simp [List.range_succ]

/-- One byte of the first lanes. -/
theorem getElem?_firstLanes
    (word : Nat → Nat)
    {count index : Nat}
    (within : index < 8 * count) :
    ((List.range count).flatMap fun lane => littleEndian 8 (word lane))[index]? =
      some (UInt8.ofNat (word (index / 8) / 2 ^ (8 * (index % 8)))) := by
  induction count with
  | zero => omega
  | succ count inductionHypothesis =>
      have length :
          ((List.range count).flatMap fun lane =>
            littleEndian 8 (word lane)).length = 8 * count := by
        rw [List.length_flatMap]
        simp [mul_comm]
      rw [List.range_succ, List.flatMap_append]
      by_cases earlier : index < 8 * count
      · rw [List.getElem?_append_left (by omega), inductionHypothesis earlier]
      · have lane : index / 8 = count := by omega
        have offset : index - 8 * count = index % 8 := by omega
        rw [List.getElem?_append_right (by omega), length, offset, lane,
          List.flatMap_singleton, getElem?_littleEndian (by omega)]

/-- The words written out at the end are the bytes of the first lanes. -/
theorem storeWords_eq
    (state : Vector UInt64 25) :
    ∃ hash : Vector UInt8 32,
      (List.range 4).foldlM
          (fun result index => do
            let lane ← state[index]?
            storeLe64 result (index * 8) lane)
          (Vector.replicate 32 0) =
        some hash ∧
        hash.toList =
          (List.range 4).flatMap fun index =>
            littleEndian 8 (lanesOf state (Fin.ofNat 5 index) 0).toNat := by
  let word : Nat → Nat := fun index => (lanesOf state (Fin.ofNat 5 index) 0).toNat
  obtain ⟨hash, run, written, _⟩ :
      ∃ hash : Vector UInt8 32,
        (List.range 4).foldlM
            (fun result index => do
              let lane ← state[index]?
              storeLe64 result (index * 8) lane)
            (Vector.replicate 32 0) =
          some hash ∧
          (∀ index ∈ List.range 4, ∀ key : Fin 32, key.val / 8 = index →
            hash[key] =
              UInt8.ofNat (word (key.val / 8) / 2 ^ (8 * (key.val % 8)))) ∧
          ∀ key : Fin 32, (∀ index ∈ List.range 4, ¬ key.val / 8 = index) →
            hash[key] = (Vector.replicate 32 0)[key] := by
    refine foldlM_blocks (fun (bytes : Vector UInt8 32) (key : Fin 32) => bytes[key])
      ?_ (List.pairwise_lt_range.imp fun less key first second => by omega)
    intro index member bytes _
    have small := List.mem_range.mp member
    have column : (Fin.ofNat 5 index).val = index := Nat.mod_eq_of_lt (by omega)
    have lane : state[index]? = some (lanesOf state (Fin.ofNat 5 index) 0) := by
      rw [getElem?_eq_some state (by omega : index < 25)]
      simp only [lanesOf, laneIndex, Fin.getElem_fin, column]
      rfl
    obtain ⟨next, stored, changed, kept⟩ :=
      storeLe64_eq bytes (by omega : index * 8 + 8 ≤ 32)
        (lanesOf state (Fin.ofNat 5 index) 0)
    refine ⟨next, ?_, ?_, ?_⟩
    · rw [lane]
      exact stored
    · intro key here
      rw [changed (key.val % 8) (List.mem_range.mpr (by omega)) key (by omega), here]
    · intro key other
      refine kept key fun offset inWord hit => other ?_
      have bound := List.mem_range.mp inWord
      omega
  refine ⟨hash, run, List.ext_getElem? fun index => ?_⟩
  by_cases within : index < 32
  · rw [getElem?_firstLanes word (by omega), Vector.getElem?_toList,
      getElem?_eq_some hash within]
    exact congrArg some
      (written (index / 8) (List.mem_range.mpr (by omega)) ⟨index, within⟩ rfl)
  · rw [List.getElem?_eq_none (by simpa using within),
      List.getElem?_eq_none (by rw [List.length_flatMap]; simpa using within)]

/-- The hash is the first 32 bytes of the sponge over the data. -/
theorem cnFastHash_eq
    (data : List UInt8) :
    ∃ hash : Vector UInt8 32,
      cnFastHash data = some hash ∧
        hash.toList = Keccak.sponge 136 data 32 := by
  obtain ⟨state, rest, wholeRun, short, absorbed⟩ :=
    absorbWhole_eq (Vector.replicate 25 0) data
  obtain ⟨tail, tailRun, tailBytes⟩ := paddedTail_eq short
  have tailLength : tail.toList.length = 136 := by
    simp
  obtain ⟨combined, combinedRun, combinedLanes⟩ :=
    absorbBlock_eq state tailLength.ge
  obtain ⟨final, finalRun, finalLanes⟩ := keccakF1600_eq combined
  obtain ⟨hash, hashRun, hashBytes⟩ := storeWords_eq final
  have zero : lanesOf (Vector.replicate 25 0) = fun _ _ => 0 := by
    funext x y
    exact Vector.getElem_replicate (laneIndex x y).isLt
  have lanes :
      lanesOf final =
        (Keccak.blocks 136 (data ++ Keccak.padding 136 data.length)).foldl
          Keccak.absorb fun _ _ => 0 := by
    rw [← zero, absorbed, ← tailBytes, finalLanes, combinedLanes,
      List.take_of_length_le tailLength.le, Keccak.absorb]
  refine ⟨hash, ?_, ?_⟩
  · rw [cnFastHash, wholeRun, Option.bind_eq_bind, Option.bind_some]
    dsimp only
    rw [tailRun, Option.bind_eq_bind, Option.bind_some, combinedRun,
      Option.bind_eq_bind, Option.bind_some, finalRun, Option.bind_eq_bind,
      Option.bind_some]
    exact hashRun
  · rw [hashBytes, ← take_stateBytes, lanes, Keccak.sponge]

/--
The permutation and the hash are those of the specification, and no access of
theirs leaves its array.
-/
theorem cnFastHash_is_keccak :
    (∀ state : Vector UInt64 25, ∃ final : Vector UInt64 25,
      keccakF1600 state = some final ∧
        lanesOf final = Keccak.permutation (lanesOf state)) ∧
      ∀ data : List UInt8, ∃ hash : Vector UInt8 32,
        cnFastHash data = some hash ∧
          hash.toList = Keccak.sponge 136 data 32 :=
  ⟨keccakF1600_eq, cnFastHash_eq⟩

end Sponge

end ZanoP2pool
