import ZanoP2pool.Foundation.FixedDigits
import ZanoP2pool.ShareBytes
import ZanoP2pool.VarintReaders

namespace ZanoP2pool

open Foundation

/-!
# The one spelling of a payout address

The decoder of addresses is compared with the reference encoding: blocks of eight
bytes as eleven digits, a shorter last block as its own number of digits, of the
prefix, the two keys and the checksum.  It accepts exactly the reference encoding
of what it returns.
-/

section Reference

/-- The character of a digit. -/
def base58Character (digit : Nat) : UInt8 :=
  kBase58Alphabet.getD digit 0

/-- The number of digits of a block. -/
def encodedBlockSize (size : Nat) : Nat :=
  kEncodedBlockSizes.getD size 0

/-- The digits of one block, most significant first. -/
def encodeBlock (block : List UInt8) : List UInt8 :=
  (fixedDigits 58 (encodedBlockSize block.length)
    (ofBigEndian block)).map base58Character

/-- A number of full blocks. -/
def encodeFullBlocks : Nat → List UInt8 → List UInt8
  | 0, _ => []
  | blocks + 1, bytes =>
      encodeBlock (bytes.take 8) ++ encodeFullBlocks blocks (bytes.drop 8)

/-- The full blocks, and the rest as a block of its own. -/
def encodeBase58 (bytes : List UInt8) : List UInt8 :=
  encodeFullBlocks (bytes.length / 8) bytes ++
    encodeBlock (bytes.drop (bytes.length / 8 * 8))

/-- The prefix and the keys of an address. -/
def addressContent (payout : PayoutPublicKeys) : List UInt8 :=
  varint kZanoStandardAddressBase58Prefix ++
    hashBytes payout.spendPublicKey ++ hashBytes payout.viewPublicKey

/-- The reference encoding of two keys. -/
def encodeAddress (backend : Backend) (payout : PayoutPublicKeys) :
    List UInt8 :=
  encodeBase58 (addressContent payout ++
    (hashBytes (backend.cnFastHash (addressContent payout))).take 4)

end Reference

section Digits

theorem length_kBase58Alphabet :
    kBase58Alphabet.length = 58 := by
  decide

theorem nodup_kBase58Alphabet :
    kBase58Alphabet.Nodup := by
  decide +kernel

/-- A digit is the place of its character. -/
theorem base58Digit_eq_some
    {character : UInt8}
    {digit : Nat} :
    base58Digit character = some digit ↔
      digit < 58 ∧ base58Character digit = character := by
  unfold base58Digit base58Character
  rw [List.idxOf?_eq_some_iff]
  constructor
  · rintro ⟨inside, same, _⟩
    refine ⟨length_kBase58Alphabet ▸ inside, ?_⟩
    rw [List.getD_eq_getElem _ _ inside, same]
  · rintro ⟨small, same⟩
    have inside : digit < kBase58Alphabet.length :=
      length_kBase58Alphabet.symm ▸ small
    rw [List.getD_eq_getElem _ _ inside] at same
    refine ⟨inside, same, ?_⟩
    intro earlier before again
    have equal := (nodup_kBase58Alphabet.getElem_inj_iff).mp
      (again.trans same.symm)
    omega

/-- A character is that of one digit at most. -/
theorem base58Digit_base58Character
    {digit : Nat}
    (small : digit < 58) :
    base58Digit (base58Character digit) = some digit :=
  base58Digit_eq_some.mpr ⟨small, rfl⟩

/-- Reading one digit more does not wrap as long as the rest fits. -/
theorem blockValue_step
    {start : BitVec 128}
    {digit : Nat}
    {character : UInt8}
    {rest : List UInt8}
    (small : digit < 58)
    (fits : (start.toNat + 1) * 58 ^ (character :: rest).length ≤ 2 ^ 128) :
    (start * 58 + BitVec.ofNat 128 digit).toNat = start.toNat * 58 + digit ∧
      (start.toNat * 58 + digit + 1) * 58 ^ rest.length ≤ 2 ^ 128 := by
  rw [List.length_cons, Nat.pow_succ] at fits
  have positive : 0 < 58 ^ rest.length := by positivity
  have room :
      (start.toNat * 58 + digit + 1) * 58 ^ rest.length ≤ 2 ^ 128 := by
    calc (start.toNat * 58 + digit + 1) * 58 ^ rest.length
        ≤ ((start.toNat + 1) * 58) * 58 ^ rest.length :=
          Nat.mul_le_mul_right _ (by omega)
      _ = (start.toNat + 1) * (58 ^ rest.length * 58) := by ring
      _ ≤ 2 ^ 128 := fits
  have below : start.toNat * 58 + digit < 2 ^ 128 := by
    nlinarith
  have factor : (58 : BitVec 128).toNat = 58 := rfl
  refine ⟨?_, room⟩
  rw [BitVec.toNat_add, BitVec.toNat_mul, BitVec.toNat_ofNat, factor]
  omega

/-- As long as the value fits 128 bits, a block is read without a wrap. -/
theorem blockValue_eq_some
    {encoded : List UInt8}
    {start value : BitVec 128}
    (fits : (start.toNat + 1) * 58 ^ encoded.length ≤ 2 ^ 128) :
    blockValue encoded start = some value ↔
      ∃ digits : List Nat,
        encoded = digits.map base58Character ∧
        (∀ digit ∈ digits, digit < 58) ∧
        value.toNat =
          digits.foldl (fun value digit => value * 58 + digit)
            start.toNat := by
  induction encoded generalizing start with
  | nil =>
      rw [blockValue]
      constructor
      · rintro ⟨⟩
        exact ⟨[], rfl, by simp, rfl⟩
      · rintro ⟨digits, empty, _, same⟩
        obtain rfl := List.map_eq_nil_iff.mp empty.symm
        exact congrArg some (BitVec.eq_of_toNat_eq same.symm)
  | cons character rest inductionHypothesis =>
      rw [blockValue]
      cases read : base58Digit character with
      | none =>
          refine iff_of_false (by simp) ?_
          rintro ⟨digits, shape, small, _⟩
          cases digits with
          | nil => cases shape
          | cons digit others =>
              obtain ⟨rfl, _⟩ := List.cons.inj shape
              rw [base58Digit_base58Character
                (small digit List.mem_cons_self)] at read
              cases read
      | some digit =>
          obtain ⟨small, rfl⟩ := base58Digit_eq_some.mp read
          obtain ⟨next, room⟩ := blockValue_step small fits
          simp only
          rw [inductionHypothesis (by rw [next]; exact room), next]
          constructor
          · rintro ⟨digits, rfl, others, same⟩
            exact ⟨digit :: digits, rfl, by simpa using ⟨small, others⟩, same⟩
          · rintro ⟨digits, shape, others, same⟩
            cases digits with
            | nil => cases shape
            | cons first digits =>
                obtain ⟨heads, rfl⟩ := List.cons.inj shape
                have equal := base58Digit_base58Character
                  (others first List.mem_cons_self)
                rw [← heads, read] at equal
                cases equal
                exact ⟨digits, rfl, fun digit member =>
                  others digit (List.mem_cons_of_mem _ member), same⟩

/-- The bytes of a value that fits them spell it. -/
theorem blockBytes_spell
    (size : Nat)
    (value : BitVec 128) :
    (blockBytes size value).length = size ∧
      ofBigEndian (blockBytes size value) = value.toNat % 256 ^ size := by
  induction size generalizing value with
  | zero => exact ⟨rfl, by simp [blockBytes, Nat.mod_one]⟩
  | succ size inductionHypothesis =>
      obtain ⟨length, spelled⟩ := inductionHypothesis (value >>> 8)
      have low : (value &&& 0xff).toNat = value.toNat % 256 := by
        rw [BitVec.toNat_and]
        exact Nat.and_two_pow_sub_one_eq_mod value.toNat 8
      have last : (UInt8.ofNat (value.toNat % 256)).toNat =
          value.toNat % 256 := by
        rw [UInt8.toNat_ofNat']
        omega
      have high : (value >>> 8).toNat = value.toNat / 256 := by
        rw [BitVec.toNat_ushiftRight]
        exact Nat.shiftRight_eq_div_pow _ 8
      rw [blockBytes]
      refine ⟨by rw [List.length_append, length, List.length_singleton], ?_⟩
      rw [ofBigEndian_append, spelled, high, low, ofBigEndian_cons, last,
        List.length_singleton, List.length_nil, ofBigEndian_nil, Nat.pow_zero,
        Nat.mul_one, Nat.add_zero, Nat.pow_one, Nat.pow_succ,
        Nat.mul_comm (256 ^ size), Nat.mod_mul]
      ring

end Digits

section Blocks

/-- What the table of block sizes guarantees. -/
theorem encodedBlockSize_fits
    {size : Nat}
    (full : size ≤ 8) :
    256 ^ size ≤ 58 ^ encodedBlockSize size ∧ encodedBlockSize size ≤ 11 ∧
      (encodedBlockSize size = 0 ↔ size = 0) := by
  have table :
      ∀ size < 9, 256 ^ size ≤ 58 ^ encodedBlockSize size ∧
        encodedBlockSize size ≤ 11 ∧
          (encodedBlockSize size = 0 ↔ size = 0) := by
    decide +kernel
  exact table size (by omega)

theorem length_encodeBlock
    {block : List UInt8}
    (full : block.length ≤ 8) :
    (encodeBlock block).length = encodedBlockSize block.length := by
  rw [encodeBlock, List.length_map]
  exact length_fixedDigits (by norm_num)
    ((ofBigEndian_lt block).trans_le (encodedBlockSize_fits full).1)

/-- A block is decoded exactly from its reference encoding. -/
theorem decodeBlock_eq_some
    {encoded block : List UInt8}
    {size : Nat}
    (positive : size ≠ 0)
    (full : size ≤ 8)
    (width : encoded.length = encodedBlockSize size) :
    decodeBlock encoded size = some block ↔
      block.length = size ∧ encoded = encodeBlock block := by
  obtain ⟨fits, narrow, nonzero⟩ := encodedBlockSize_fits full
  have usable : ¬ (encoded.isEmpty ∨ size = 0 ∨ size > 8) := by
    rw [List.isEmpty_iff_length_eq_zero, width, nonzero]
    omega
  have limit :
      ((1 : BitVec 128) <<< (size * 8)).toNat = 256 ^ size := by
    rw [BitVec.toNat_shiftLeft, Nat.shiftLeft_eq,
      show (1 : BitVec 128).toNat = 1 from rfl, Nat.one_mul, Nat.mul_comm,
      Nat.pow_mul, show (2 : Nat) ^ 8 = 256 from rfl]
    refine Nat.mod_eq_of_lt ?_
    exact (Nat.pow_le_pow_right (by norm_num) full).trans_lt (by norm_num)
  have room : ((0 : BitVec 128).toNat + 1) * 58 ^ encoded.length ≤ 2 ^ 128 := by
    rw [width, show (0 : BitVec 128).toNat = 0 from rfl, Nat.zero_add,
      Nat.one_mul]
    exact (Nat.pow_le_pow_right (by norm_num) narrow).trans (by norm_num)
  have read := @blockValue_eq_some encoded 0
  unfold decodeBlock
  rw [if_neg usable]
  constructor
  · intro decoded
    cases valued : blockValue encoded 0 with
    | none =>
        rw [valued] at decoded
        cases decoded
    | some value =>
        rw [valued] at decoded
        simp only [ge_iff_le] at decoded
        split_ifs at decoded with large
        cases decoded
        rw [BitVec.le_def, limit, not_le] at large
        obtain ⟨digits, rfl, small, same⟩ := (read room).mp valued
        obtain ⟨length, spelled⟩ := blockBytes_spell size value
        refine ⟨length, ?_⟩
        rw [encodeBlock, length, spelled, Nat.mod_eq_of_lt large, same,
          ← width, List.length_map]
        exact congrArg _ (fixedDigits_digitsValue (by norm_num) small).symm
  · rintro ⟨length, rfl⟩
    have below := ofBigEndian_lt block
    rw [length] at below
    have inWord : ofBigEndian block < 2 ^ 128 :=
      (below.trans_le (Nat.pow_le_pow_right (by norm_num) full)).trans
        (by norm_num)
    have value :
        (BitVec.ofNat 128 (ofBigEndian block)).toNat = ofBigEndian block := by
      rw [BitVec.toNat_ofNat]
      exact Nat.mod_eq_of_lt inWord
    have valued :
        blockValue (encodeBlock block) 0 =
          some (BitVec.ofNat 128 (ofBigEndian block)) := by
      refine (read room).mpr ⟨_, rfl, fun digit member =>
        lt_of_mem_fixedDigits (by norm_num) member, ?_⟩
      rw [value]
      exact (digitsValue_fixedDigits (by norm_num) (by
        rw [length]
        exact below.trans_le fits)).symm
    have small :
        ¬ BitVec.ofNat 128 (ofBigEndian block) ≥
          (1 : BitVec 128) <<< (size * 8) := by
      rw [ge_iff_le, BitVec.le_def, limit, value, not_le]
      exact below
    obtain ⟨bytes, spelled⟩ :=
      blockBytes_spell size (BitVec.ofNat 128 (ofBigEndian block))
    rw [valued]
    simp only
    rw [if_neg small]
    rw [value, Nat.mod_eq_of_lt below] at spelled
    have again := bigEndian_ofBigEndian
      (blockBytes size (BitVec.ofNat 128 (ofBigEndian block)))
    rw [bytes, spelled, ← length, bigEndian_ofBigEndian] at again
    rw [length] at again
    rw [← again]

/-- Full blocks depend on their own bytes only. -/
theorem encodeFullBlocks_append
    {blocks : Nat}
    {bytes : List UInt8}
    (length : bytes.length = blocks * 8)
    (rest : List UInt8) :
    encodeFullBlocks blocks (bytes ++ rest) =
      encodeFullBlocks blocks bytes := by
  induction blocks generalizing bytes with
  | zero => rfl
  | succ blocks inductionHypothesis =>
      have long : 8 ≤ bytes.length := by omega
      have shorter : (bytes.drop 8).length = blocks * 8 := by
        rw [List.length_drop]
        omega
      rw [encodeFullBlocks, encodeFullBlocks,
        List.take_append_of_le_length long, List.drop_append_of_le_length long,
        inductionHypothesis shorter]

theorem length_encodeFullBlocks
    {blocks : Nat}
    {bytes : List UInt8}
    (enough : blocks * 8 ≤ bytes.length) :
    (encodeFullBlocks blocks bytes).length = blocks * 11 := by
  induction blocks generalizing bytes with
  | zero => rfl
  | succ blocks inductionHypothesis =>
      have first : (bytes.take 8).length = 8 := by
        rw [List.length_take]
        omega
      have others : blocks * 8 ≤ (bytes.drop 8).length := by
        rw [List.length_drop]
        omega
      rw [encodeFullBlocks, List.length_append,
        length_encodeBlock first.le, first, inductionHypothesis others]
      change 11 + _ = _
      omega

/-- Full blocks are decoded exactly from their reference encoding. -/
theorem decodeFullBlocks_eq_some
    {encoded bytes : List UInt8}
    {blocks index : Nat}
    (enough : (index + blocks) * 11 ≤ encoded.length) :
    decodeFullBlocks encoded blocks index = some bytes ↔
      bytes.length = blocks * 8 ∧
        (encoded.drop (index * 11)).take (blocks * 11) =
          encodeFullBlocks blocks bytes := by
  induction blocks generalizing index bytes with
  | zero =>
      simp [decodeFullBlocks, encodeFullBlocks, eq_comm]
  | succ blocks inductionHypothesis =>
      have width :
          ((encoded.drop (index * 11)).take 11).length =
            encodedBlockSize 8 := by
        rw [List.length_take, List.length_drop]
        change min 11 _ = 11
        omega
      have split :
          (encoded.drop (index * 11)).take ((blocks + 1) * 11) =
            (encoded.drop (index * 11)).take 11 ++
              (encoded.drop ((index + 1) * 11)).take (blocks * 11) := by
        rw [Nat.succ_mul, Nat.succ_mul, Nat.add_comm (blocks * 11),
          List.take_add, List.drop_drop]
      have block := fun first =>
        @decodeBlock_eq_some ((encoded.drop (index * 11)).take 11) first 8
          (by norm_num) le_rfl width
      have rest := fun others =>
        @inductionHypothesis others (index + 1) (by omega)
      rw [decodeFullBlocks, split, encodeFullBlocks]
      simp only [kEncodedFullBlockSize, kDecodedFullBlockSize]
      constructor
      · intro decoded
        cases head : decodeBlock ((encoded.drop (index * 11)).take 11) 8 with
        | none =>
            rw [head] at decoded
            cases decoded
        | some first =>
            rw [head] at decoded
            obtain ⟨others, tail, rfl⟩ := Option.map_eq_some_iff.mp decoded
            obtain ⟨firstLength, firstShape⟩ := (block first).mp head
            obtain ⟨othersLength, othersShape⟩ := (rest others).mp tail
            rw [List.take_left' firstLength, List.drop_left' firstLength,
              firstShape, othersShape]
            refine ⟨?_, rfl⟩
            rw [List.length_append, firstLength, othersLength]
            omega
      · rintro ⟨length, shape⟩
        have firstLength : (bytes.take 8).length = 8 := by
          rw [List.length_take]
          omega
        have othersLength : (bytes.drop 8).length = blocks * 8 := by
          rw [List.length_drop]
          omega
        obtain ⟨firstShape, othersShape⟩ := List.append_inj shape (by
          rw [width, length_encodeBlock firstLength.le, firstLength])
        rw [(block _).mpr ⟨firstLength, firstShape⟩]
        simp only
        rw [(rest _).mpr ⟨othersLength, othersShape⟩, Option.map_some,
          List.take_append_drop]

/-- The table of block sizes is searched for a size. -/
theorem decodedBlockSize_eq_some
    {encodedSize size : Nat} :
    decodedBlockSize encodedSize = some size ↔
      size < 9 ∧ encodedBlockSize size = encodedSize := by
  have distinct : kEncodedBlockSizes.Nodup := by decide
  unfold decodedBlockSize encodedBlockSize
  rw [List.idxOf?_eq_some_iff]
  constructor
  · rintro ⟨inside, same, _⟩
    exact ⟨inside, by rw [List.getD_eq_getElem _ _ inside, same]⟩
  · rintro ⟨small, same⟩
    have inside : size < kEncodedBlockSizes.length := small
    rw [List.getD_eq_getElem _ _ inside] at same
    refine ⟨inside, same, ?_⟩
    intro earlier before again
    have equal := (distinct.getElem_inj_iff).mp (again.trans same.symm)
    omega

/-- A block that is not full has fewer digits than a full one. -/
theorem encodedBlockSize_lt
    {size : Nat} :
    size < 9 → (encodedBlockSize size < 11 ↔ size < 8) := by
  have table : ∀ size < 9, encodedBlockSize size < 11 ↔ size < 8 := by
    decide
  exact table size

theorem encodeBlock_nil :
    encodeBlock [] = [] := by
  have none := @length_encodeBlock [] (by simp)
  exact List.length_eq_zero_iff.mp none

theorem length_encodeBase58
    (bytes : List UInt8) :
    (encodeBase58 bytes).length =
      bytes.length / 8 * 11 + encodedBlockSize (bytes.length % 8) := by
  have tail :
      (bytes.drop (bytes.length / 8 * 8)).length = bytes.length % 8 := by
    rw [List.length_drop]
    omega
  rw [encodeBase58, List.length_append,
    length_encodeFullBlocks (Nat.div_mul_le_self _ _),
    length_encodeBlock (by rw [tail]; omega), tail]

/-- The decoder with the sizes of a full block. -/
theorem decodeBase58_eq
    (encoded : List UInt8) :
    decodeBase58 encoded =
      if encoded.isEmpty then
        some []
      else
        match decodedBlockSize (encoded.length % 11) with
        | none => none
        | some tailSize =>
            match decodeFullBlocks encoded (encoded.length / 11) 0 with
            | none => none
            | some decoded =>
                if encoded.length % 11 ≠ 0 then
                  (decodeBlock ((encoded.drop (encoded.length / 11 * 11)).take
                    (encoded.length % 11)) tailSize).map (decoded ++ ·)
                else
                  some decoded :=
  rfl

/-- A string is decoded exactly when it is a reference encoding. -/
theorem decodeBase58_eq_some
    {encoded bytes : List UInt8} :
    decodeBase58 encoded = some bytes ↔ encoded = encodeBase58 bytes := by
  rw [decodeBase58_eq]
  constructor
  · intro decoded
    by_cases empty : encoded.isEmpty = true
    · rw [if_pos empty] at decoded
      cases decoded
      rw [List.isEmpty_iff] at empty
      rw [empty, encodeBase58, List.drop_nil, encodeBlock_nil]
      rfl
    · rw [if_neg empty] at decoded
      cases sized : decodedBlockSize (encoded.length % 11) with
      | none =>
          rw [sized] at decoded
          cases decoded
      | some tailSize =>
          obtain ⟨inTable, remainder⟩ := decodedBlockSize_eq_some.mp sized
          have short : tailSize < 8 :=
            (encodedBlockSize_lt inTable).mp (by omega)
          rw [sized] at decoded
          cases front : decodeFullBlocks encoded (encoded.length / 11) 0 with
          | none =>
              rw [front] at decoded
              cases decoded
          | some full =>
              rw [front] at decoded
              simp only at decoded
              obtain ⟨fullLength, fullShape⟩ :=
                (decodeFullBlocks_eq_some (by omega)).mp front
              rw [Nat.zero_mul, List.drop_zero] at fullShape
              obtain ⟨tail, rfl, tailLength, tailShape⟩ :
                  ∃ tail, bytes = full ++ tail ∧ tail.length = tailSize ∧
                    encoded.drop (encoded.length / 11 * 11) =
                      encodeBlock tail := by
                by_cases whole : encoded.length % 11 ≠ 0
                · rw [if_pos whole] at decoded
                  obtain ⟨tail, read, rfl⟩ := Option.map_eq_some_iff.mp decoded
                  have all :
                      (encoded.drop (encoded.length / 11 * 11)).take
                          (encoded.length % 11) =
                        encoded.drop (encoded.length / 11 * 11) := by
                    refine List.take_of_length_le ?_
                    rw [List.length_drop]
                    omega
                  have positive : tailSize ≠ 0 := by
                    rintro rfl
                    exact whole remainder.symm
                  obtain ⟨tailLength, tailShape⟩ :=
                    (decodeBlock_eq_some positive short.le (by
                      rw [all, remainder, List.length_drop]
                      omega)).mp read
                  exact ⟨tail, rfl, tailLength, by rw [← all, tailShape]⟩
                · rw [if_neg whole] at decoded
                  cases decoded
                  have none : tailSize = 0 :=
                    (encodedBlockSize_fits short.le).2.2.mp (by omega)
                  refine ⟨[], (List.append_nil _).symm, none.symm, ?_⟩
                  rw [encodeBlock_nil, List.drop_eq_nil_iff]
                  omega
              have blocks : (full ++ tail).length / 8 = encoded.length / 11 := by
                rw [List.length_append, fullLength, tailLength]
                omega
              rw [encodeBase58, blocks, encodeFullBlocks_append fullLength,
                List.drop_left' fullLength, ← fullShape, ← tailShape,
                List.take_append_drop]
  · rintro rfl
    have length := length_encodeBase58 bytes
    have remaining : bytes.length % 8 < 8 := Nat.mod_lt _ (by norm_num)
    have narrow : encodedBlockSize (bytes.length % 8) < 11 :=
      (encodedBlockSize_lt (by omega)).mpr remaining
    obtain ⟨_, _, nonzero⟩ := encodedBlockSize_fits remaining.le
    have blocks : (encodeBase58 bytes).length / 11 = bytes.length / 8 := by
      omega
    have remainder : (encodeBase58 bytes).length % 11 =
        encodedBlockSize (bytes.length % 8) := by
      omega
    have fullBytes :
        (bytes.take (bytes.length / 8 * 8)).length = bytes.length / 8 * 8 := by
      rw [List.length_take]
      omega
    have tailBytes :
        (bytes.drop (bytes.length / 8 * 8)).length = bytes.length % 8 := by
      rw [List.length_drop]
      omega
    have fullDigits :
        (encodeFullBlocks (bytes.length / 8) bytes).length =
          bytes.length / 8 * 11 :=
      length_encodeFullBlocks (Nat.div_mul_le_self _ _)
    have front :
        decodeFullBlocks (encodeBase58 bytes) (bytes.length / 8) 0 =
          some (bytes.take (bytes.length / 8 * 8)) := by
      refine (decodeFullBlocks_eq_some (by omega)).mpr ⟨fullBytes, ?_⟩
      have same := encodeFullBlocks_append fullBytes
        (bytes.drop (bytes.length / 8 * 8))
      rw [List.take_append_drop] at same
      rw [Nat.zero_mul, List.drop_zero, encodeBase58,
        List.take_left' fullDigits, same]
    by_cases empty : (encodeBase58 bytes).isEmpty = true
    · rw [if_pos empty]
      rw [List.isEmpty_iff_length_eq_zero, length] at empty
      have none : bytes.length = 0 := by omega
      rw [List.length_eq_zero_iff.mp none]
    · rw [if_neg empty, remainder,
        decodedBlockSize_eq_some.mpr ⟨by omega, rfl⟩, blocks, front]
      simp only
      have behind :
          (encodeBase58 bytes).drop (bytes.length / 8 * 11) =
            encodeBlock (bytes.drop (bytes.length / 8 * 8)) := by
        rw [encodeBase58, List.drop_left' fullDigits]
      by_cases whole : encodedBlockSize (bytes.length % 8) ≠ 0
      · rw [if_pos whole, behind]
        have width :
            (encodeBlock (bytes.drop (bytes.length / 8 * 8))).length =
              encodedBlockSize (bytes.length % 8) := by
          rw [length_encodeBlock (by rw [tailBytes]; omega), tailBytes]
        rw [List.take_of_length_le width.le,
          (decodeBlock_eq_some (by omega) remaining.le width).mpr
            ⟨tailBytes, rfl⟩,
          Option.map_some, List.take_append_drop]
      · rw [if_neg whole]
        have all : bytes.length / 8 * 8 = bytes.length := by omega
        rw [all, List.take_length]

end Blocks

section Address

variable (backend : Backend)

/-- The bytes of the number that 32 bytes spell. -/
theorem hashBytes_ofBigEndian
    {bytes : List UInt8}
    (length : bytes.length = 32) :
    hashBytes (BitVec.ofNat 256 (ofBigEndian bytes)) = bytes := by
  have fits := ofBigEndian_lt bytes
  rw [length] at fits
  rw [hashBytes_ofNat fits, ← length, bigEndian_ofBigEndian]

/-- A key is the number its bytes spell. -/
theorem ofBigEndian_hashBytes
    (hash : Hash256) :
    BitVec.ofNat 256 (ofBigEndian (hashBytes hash)) = hash := by
  have fits : hash.toNat < 256 ^ 32 := hash.isLt.trans_eq (by norm_num)
  rw [hashBytes, ofBigEndian_bigEndian_of_lt fits, BitVec.ofNat_toNat,
    BitVec.setWidth_eq]

theorem length_addressPrefix :
    (varint kZanoStandardAddressBase58Prefix).length = 2 := by
  decide

theorem length_hashBytes'
    (hash : Hash256) :
    (hashBytes hash).length = 32 :=
  length_bigEndian 32 _

theorem length_addressContent
    (payout : PayoutPublicKeys) :
    (addressContent payout).length = 66 := by
  rw [addressContent, List.length_append, List.length_append,
    length_addressPrefix, length_hashBytes', length_hashBytes']

/-- The bytes of an address before they are spelled. -/
def addressBytes (payout : PayoutPublicKeys) : List UInt8 :=
  addressContent payout ++
    (hashBytes (backend.cnFastHash (addressContent payout))).take 4

variable {backend}

/-- The decoder once the digits are read, with the sizes of an address. -/
theorem decodeZanoStandardAddress_eq
    {address decoded : List UInt8}
    (spelled : decodeBase58 address = some decoded) :
    decodeZanoStandardAddress backend address =
      if decoded.length ≤ 4 then
        { status := .invalidBase58 }
      else if decoded.drop (decoded.length - 4) ≠
          (hashBytes (backend.cnFastHash
            (decoded.take (decoded.length - 4)))).take
              (decoded.length - (decoded.length - 4)) then
        { status := .invalidChecksum }
      else
        match readCanonicalVarint (decoded.take (decoded.length - 4)) with
        | none => { status := .invalidPrefix }
        | some (addressPrefix, prefixSize) =>
            if addressPrefix ≠ kZanoStandardAddressBase58Prefix then
              { status := .invalidPrefix }
            else if (decoded.take (decoded.length - 4)).length -
                prefixSize ≠ 64 then
              { status := .unsupportedPayload }
            else
              let payload := (decoded.take (decoded.length - 4)).drop prefixSize
              { status := .valid
                payout := {
                  spendPublicKey :=
                    BitVec.ofNat 256 (ofBigEndian (payload.take 32))
                  viewPublicKey :=
                    BitVec.ofNat 256
                      (ofBigEndian ((payload.drop 32).take 32)) } } := by
  unfold decodeZanoStandardAddress
  rw [spelled]
  rfl

/-- A string is valid exactly as the reference encoding of what it names. -/
theorem decodeZanoStandardAddress_iff
    {address : List UInt8}
    {payout : PayoutPublicKeys} :
    decodeZanoStandardAddress backend address =
        { status := .valid, payout } ↔
      address = encodeAddress backend payout := by
  constructor
  · intro valid
    cases spelled : decodeBase58 address with
    | none =>
        unfold decodeZanoStandardAddress at valid
        rw [spelled] at valid
        cases valid
    | some decoded =>
        obtain rfl := decodeBase58_eq_some.mp spelled
        rw [decodeZanoStandardAddress_eq spelled] at valid
        by_cases short : decoded.length ≤ 4
        · rw [if_pos short] at valid
          cases valid
        rw [if_neg short] at valid
        by_cases checksum : decoded.drop (decoded.length - 4) ≠
            (hashBytes (backend.cnFastHash
              (decoded.take (decoded.length - 4)))).take
                (decoded.length - (decoded.length - 4))
        · rw [if_pos checksum] at valid
          cases valid
        rw [if_neg checksum] at valid
        cases read : readCanonicalVarint
            (decoded.take (decoded.length - 4)) with
        | none =>
            rw [read] at valid
            cases valid
        | some found =>
            obtain ⟨addressPrefix, prefixSize⟩ := found
            rw [read] at valid
            simp only at valid
            by_cases wrongPrefix :
                addressPrefix ≠ kZanoStandardAddressBase58Prefix
            · rw [if_pos wrongPrefix] at valid
              cases valid
            rw [if_neg wrongPrefix] at valid
            by_cases wrongSize :
                (decoded.take (decoded.length - 4)).length - prefixSize ≠ 64
            · rw [if_pos wrongSize] at valid
              cases valid
            rw [if_neg wrongSize] at valid
            have prefixEq := not_not.mp wrongPrefix
            subst prefixEq
            obtain ⟨_, rfl, payload, content⟩ :=
              readCanonicalVarint_eq_some.mp read
            rw [content, List.drop_left] at valid
            rw [content, List.length_append, Nat.add_sub_cancel_left,
              not_not] at wrongSize
            cases valid
            have first : (payload.take 32).length = 32 := by
              rw [List.length_take]
              omega
            have rest : (payload.drop 32).length = 32 := by
              rw [List.length_drop]
              omega
            have whole :
                addressContent {
                  spendPublicKey :=
                    BitVec.ofNat 256 (ofBigEndian (payload.take 32))
                  viewPublicKey :=
                    BitVec.ofNat 256
                      (ofBigEndian ((payload.drop 32).take 32)) } =
                  decoded.take (decoded.length - 4) := by
              rw [addressContent, hashBytes_ofBigEndian first,
                List.take_of_length_le rest.le, hashBytes_ofBigEndian rest,
                List.append_assoc, List.take_append_drop, content]
            have four : decoded.length - (decoded.length - 4) = 4 := by
              omega
            rw [four, not_not] at checksum
            rw [encodeAddress, whole, ← checksum, List.take_append_drop]
  · rintro rfl
    have checksumLength :
        ((hashBytes (backend.cnFastHash (addressContent payout))).take
          4).length = 4 := by
      rw [List.length_take, length_hashBytes']
      rfl
    have contentLength := length_addressContent payout
    have decoded :
        decodeBase58 (encodeAddress backend payout) =
          some (addressBytes backend payout) :=
      decodeBase58_eq_some.mpr rfl
    have length : (addressBytes backend payout).length = 70 := by
      rw [addressBytes, List.length_append, contentLength, checksumLength]
    have content :
        (addressBytes backend payout).take 66 = addressContent payout :=
      List.take_left' contentLength
    have checksum :
        (addressBytes backend payout).drop 66 =
          (hashBytes (backend.cnFastHash (addressContent payout))).take 4 :=
      List.drop_left' contentLength
    have read :
        readCanonicalVarint (addressContent payout) =
          some (kZanoStandardAddressBase58Prefix, 2) := by
      refine readCanonicalVarint_eq_some.mpr
        ⟨by decide, length_addressPrefix.symm,
          hashBytes payout.spendPublicKey ++ hashBytes payout.viewPublicKey, ?_⟩
      rw [addressContent, List.append_assoc]
    have payload :
        (addressContent payout).drop 2 =
          hashBytes payout.spendPublicKey ++
            hashBytes payout.viewPublicKey := by
      rw [addressContent, List.append_assoc,
        List.drop_left' length_addressPrefix]
    have spend := length_hashBytes' payout.spendPublicKey
    have view := length_hashBytes' payout.viewPublicKey
    rw [decodeZanoStandardAddress_eq decoded]
    simp only [length]
    rw [if_neg (by norm_num), content, checksum,
      if_neg (not_not.mpr rfl), read]
    simp only
    rw [if_neg (not_not.mpr rfl), contentLength, if_neg (by norm_num), payload,
      List.take_left' spend, List.drop_left' spend,
      List.take_of_length_le view.le, ofBigEndian_hashBytes,
      ofBigEndian_hashBytes]

/-- The value of a block without any bound on it. -/
def blockNumber : List UInt8 → Nat → Option Nat
  | [], value => some value
  | character :: rest, value =>
      match base58Digit character with
      | none => none
      | some digit => blockNumber rest (value * 58 + digit)

/-- Blocks of at most eleven characters are read without a wrap. -/
theorem blockValue_exact
    {encoded : List UInt8}
    {start : BitVec 128}
    (fits : (start.toNat + 1) * 58 ^ encoded.length ≤ 2 ^ 128) :
    (blockValue encoded start).map BitVec.toNat =
      blockNumber encoded start.toNat := by
  induction encoded generalizing start with
  | nil => rfl
  | cons character rest inductionHypothesis =>
      rw [blockValue, blockNumber]
      cases read : base58Digit character with
      | none => rfl
      | some digit =>
          have small := (base58Digit_eq_some.mp read).1
          obtain ⟨next, room⟩ := blockValue_step small fits
          simp only
          rw [inductionHypothesis (by rw [next]; exact room), next]

/--
A string is a valid address exactly as the reference encoding of its keys, so
strings and keys correspond one to one.  Blocks are read without a wrap, and no
slice reaches beyond its bytes.
-/
theorem decodeZanoStandardAddress_exact
    (backend : Backend) :
    (∀ address payout,
      decodeZanoStandardAddress backend address =
          { status := .valid, payout } ↔
        address = encodeAddress backend payout) ∧
    Set.BijOn
      (fun address => (decodeZanoStandardAddress backend address).payout)
      { address |
        (decodeZanoStandardAddress backend address).status = .valid }
      Set.univ ∧
    (∀ block : List UInt8, block.length ≤ 11 →
      (blockValue block 0).map BitVec.toNat = blockNumber block 0) ∧
    (∀ address : List UInt8,
      (∀ index < address.length / 11,
        ((address.drop (index * 11)).take 11).length = 11) ∧
      ((address.drop (address.length / 11 * 11)).take
        (address.length % 11)).length = address.length % 11) ∧
    (∀ block size bytes,
      decodeBlock block size = some bytes → bytes.length = size) ∧
    ∀ content addressPrefix prefixSize,
      readCanonicalVarint content = some (addressPrefix, prefixSize) →
        prefixSize ≤ content.length ∧
        (content.length - prefixSize = kClassicAddressPayloadSize →
          ((content.drop prefixSize).take 32).length = 32 ∧
          (((content.drop prefixSize).drop 32).take 32).length = 32) := by
  refine ⟨fun _ _ => decodeZanoStandardAddress_iff, ?_, ?_, ?_, ?_, ?_⟩
  · refine ⟨fun _ _ => trivial, ?_, ?_⟩
    · intro first firstValid second secondValid same
      have spelled := fun address
          (valid : (decodeZanoStandardAddress backend address).status =
            .valid) =>
        (@decodeZanoStandardAddress_iff backend address
          (decodeZanoStandardAddress backend address).payout).mp (by
            rw [← valid])
      rw [spelled first firstValid, spelled second secondValid]
      exact congrArg (encodeAddress backend) same
    · intro payout _
      have valid := (@decodeZanoStandardAddress_iff backend
        (encodeAddress backend payout) payout).mpr rfl
      refine ⟨encodeAddress backend payout, ?_, ?_⟩
      · rw [Set.mem_ofPred_eq, valid]
      · simp only [valid]
  · intro block short
    refine blockValue_exact ?_
    rw [show (0 : BitVec 128).toNat = 0 from rfl, Nat.zero_add, Nat.one_mul]
    exact (Nat.pow_le_pow_right (by norm_num) short).trans (by norm_num)
  · intro address
    constructor
    · intro index inside
      rw [List.length_take, List.length_drop]
      omega
    · rw [List.length_take, List.length_drop]
      omega
  · intro block size bytes decoded
    unfold decodeBlock at decoded
    split_ifs at decoded
    cases valued : blockValue block 0 with
    | none =>
        rw [valued] at decoded
        cases decoded
    | some value =>
        rw [valued] at decoded
        simp only at decoded
        split_ifs at decoded
        cases decoded
        exact (blockBytes_spell size value).1
  · intro content addressPrefix prefixSize read
    obtain ⟨_, rfl, rest, rfl⟩ := readCanonicalVarint_eq_some.mp read
    refine ⟨by rw [List.length_append]; omega, ?_⟩
    rw [List.length_append, Nat.add_sub_cancel_left, List.drop_left,
      kClassicAddressPayloadSize]
    intro length
    rw [List.length_take, List.length_take, List.length_drop]
    omega

end Address

/-- The address of the keys 1 and 2 decodes to them, and a cut one does not. -/
theorem decodeZanoStandardAddress_exact_sample :
    let payout : PayoutPublicKeys := { spendPublicKey := 1, viewPublicKey := 2 }
    let address := encodeAddress spellingBackend payout
    address.length = 97 ∧
      decodeZanoStandardAddress spellingBackend address =
        { status := .valid, payout } ∧
      ∀ other, decodeZanoStandardAddress spellingBackend address.tail ≠
        { status := .valid, payout := other } := by
  intro payout address
  obtain ⟨decodes, _⟩ := decodeZanoStandardAddress_exact spellingBackend
  refine ⟨by decide +kernel, (decodes address payout).mpr rfl, ?_⟩
  intro other valid
  have refused :
      (decodeZanoStandardAddress spellingBackend address.tail).status ≠
        .valid := by
    decide +kernel
  exact refused (by rw [valid])

end ZanoP2pool
