import ZanoP2pool.Foundation.Effect
import ZanoP2pool.MiningHeader
import ZanoP2pool.ShareCodec

namespace ZanoP2pool

open Foundation

/-!
# What a mining header commits to

The header hash binds the block header without its nonce, the prefix of the miner
transaction and the list of regular transaction hashes, up to a collision of the
hash among the byte strings that the two derivations feed to it.
-/

section Width

/-- A bit of the smeared word is set when one of the next bits was. -/
def SmearedBy (bits smeared : BitVec 64) (distance : Nat) : Prop :=
  ∀ index,
    smeared.getLsbD index = true ↔
      ∃ offset < distance, bits.getLsbD (index + offset) = true

theorem SmearedBy.double
    {bits smeared : BitVec 64}
    {distance : Nat}
    (holds : SmearedBy bits smeared distance) :
    SmearedBy bits (smeared ||| smeared >>> distance) (2 * distance) := by
  intro index
  rw [BitVec.getLsbD_or, BitVec.getLsbD_ushiftRight, Bool.or_eq_true,
    holds index, holds (distance + index)]
  constructor
  · rintro (⟨offset, near, set⟩ | ⟨offset, near, set⟩)
    · exact ⟨offset, by omega, set⟩
    · exact ⟨distance + offset, by omega, by
        rwa [Nat.add_comm distance index, Nat.add_assoc] at set⟩
  · rintro ⟨offset, near, set⟩
    by_cases close : offset < distance
    · exact .inl ⟨offset, close, set⟩
    · refine .inr ⟨offset - distance, by omega, ?_⟩
      rwa [show distance + index + (offset - distance) = index + offset by
        omega]

/-- The smeared word has all bits up to the highest set one. -/
theorem smearedBy_64
    (bits : BitVec 64) :
    SmearedBy bits
      ([1, 2, 4, 8, 16, 32].foldl
        (fun bits shift => bits ||| bits >>> shift) bits) 64 := by
  have start : SmearedBy bits bits 1 := by
    intro index
    constructor
    · exact fun set => ⟨0, by omega, set⟩
    · rintro ⟨offset, near, set⟩
      obtain rfl : offset = 0 := by omega
      exact set
  exact start.double.double.double.double.double.double

/-- The bit smearing yields the greatest power of two below the count. -/
theorem treeWidth_eq
    {count : Nat}
    (several : 2 ≤ count)
    (fits : count < 2 ^ 64) :
    treeWidth count = 2 ^ Nat.log2 (count - 1) := by
  have nonzero : count - 1 ≠ 0 := by omega
  have top : Nat.log2 (count - 1) < 64 :=
    (Nat.log2_lt nonzero).mpr (by omega)
  unfold treeWidth
  have smeared := smearedBy_64 (BitVec.ofNat 64 (count - 1))
  generalize [1, 2, 4, 8, 16, 32].foldl
    (fun bits shift => bits ||| bits >>> shift)
    (BitVec.ofNat 64 (count - 1)) = word at smeared ⊢
  have below :
      ∀ index,
        word.getLsbD index = true ↔ index ≤ Nat.log2 (count - 1) := by
    intro index
    rw [smeared index]
    simp only [BitVec.getLsbD_ofNat, Bool.and_eq_true, decide_eq_true_eq]
    constructor
    · rintro ⟨offset, _, _, set⟩
      by_contra high
      have small : count - 1 < 2 ^ (index + offset) :=
        (Nat.log2_lt nonzero).mp (by omega)
      rw [Nat.testBit_lt_two_pow small] at set
      cases set
    · intro low
      refine ⟨Nat.log2 (count - 1) - index, by omega, by omega, ?_⟩
      rw [Nat.add_sub_cancel' low]
      exact Nat.testBit_log2 nonzero
  have single :
      word &&& ~~~(word >>> 1) =
        BitVec.twoPow 64 (Nat.log2 (count - 1)) := by
    refine BitVec.eq_of_getLsbD_eq fun index inWord => ?_
    rw [Bool.eq_iff_iff, BitVec.getLsbD_and, BitVec.getLsbD_not,
      BitVec.getLsbD_ushiftRight, BitVec.getLsbD_twoPow]
    simp only [Bool.and_eq_true, Bool.not_eq_true', decide_eq_true_eq,
      ← Bool.not_eq_true, below]
    omega
  simp only [single, BitVec.toNat_twoPow]
  exact Nat.mod_eq_of_lt (Nat.pow_lt_pow_right (by norm_num) top)

end Width

section Tree

variable (backend : Backend)

/-- The byte strings hashed while neighbours are reduced to two digests. -/
def reduceMessages : Nat → List Hash256 → List (List UInt8)
  | 0, _ => []
  | budget + 1, layer =>
      if layer.length > 2 then
        pairMessages pairBytes layer ++
          reduceMessages budget (pairUp backend.cnFastHash pairBytes layer)
      else []

/-- The byte strings hashed by the transaction tree. -/
def treeMessages
    (minerTxHash : Hash256)
    (regularTxHashes : List Hash256) :
    List (List UInt8) :=
  let hashes := minerTxHash :: regularTxHashes
  let count := hashes.length
  if count = 1 then
    []
  else if count = 2 then
    pairMessages pairBytes hashes
  else
    let width := treeWidth count
    let direct := 2 * width - count
    let intermediate := hashes.take direct ++
      pairUp backend.cnFastHash pairBytes (hashes.drop direct)
    pairMessages pairBytes (hashes.drop direct) ++
      (reduceMessages backend width intermediate ++
        pairMessages pairBytes (reduceToPair backend width intermediate))

/-- The byte strings hashed by the derivation of a mining header. -/
def hashedMessages (work : MiningHeaderWork) : List (List UInt8) :=
  work.hashingBlob :: work.minerTxPrefix.serialized ::
    treeMessages backend work.minerTxPrefix.hash work.txHashes.hashes

variable {backend}

/-- A layer of a power of two is reduced level by level. -/
theorem reduceToPair_eq
    {levels budget : Nat}
    {layer : List Hash256}
    (length : layer.length = 2 ^ (levels + 1))
    (enough : levels ≤ budget) :
    reduceToPair backend budget layer =
        reduceLayers backend.cnFastHash pairBytes levels layer ∧
      reduceMessages backend budget layer =
        layerMessages backend.cnFastHash pairBytes levels layer ∧
      (reduceToPair backend budget layer).length = 2 := by
  induction levels generalizing budget layer with
  | zero =>
      have short : ¬ layer.length > 2 := by omega
      cases budget with
      | zero => exact ⟨rfl, rfl, length⟩
      | succ budget =>
          rw [reduceToPair, reduceMessages, if_neg short, if_neg short]
          exact ⟨rfl, rfl, length⟩
  | succ levels inductionHypothesis =>
      obtain ⟨rest, rfl⟩ := Nat.exists_eq_add_of_le' (Nat.le_of_lt_succ
        (Nat.lt_succ_of_le (Nat.one_le_of_lt enough)))
      have long : layer.length > 2 := by
        have := Nat.one_le_two_pow (n := levels)
        rw [length, Nat.pow_succ, Nat.pow_succ]
        omega
      have half :
          (pairUp backend.cnFastHash pairBytes layer).length =
            2 ^ (levels + 1) := by
        rw [length_pairUp, length, Nat.pow_succ]
        omega
      obtain ⟨reduced, messages, two⟩ :=
        inductionHypothesis half (by omega : levels ≤ rest)
      rw [reduceToPair, reduceMessages, if_pos long, if_pos long]
      exact ⟨reduced, by rw [messages]; rfl, two⟩

/-- A digest in front of other bytes is recovered. -/
theorem hashBytes_append_injective
    {hash other : Hash256}
    {rest otherRest : List UInt8}
    (same : hashBytes hash ++ rest = hashBytes other ++ otherRest) :
    hash = other ∧ rest = otherRest := by
  have read := readHash_hashBytes hash rest
  rw [same, readHash_hashBytes] at read
  obtain ⟨rfl, rfl⟩ := Prod.mk.inj (Except.ok.inj read)
  exact ⟨rfl, rfl⟩

/-- Two digests are recovered from the bytes hashed from them. -/
theorem pairBytes_injective
    (left right other another : Hash256)
    (same : pairBytes left right = pairBytes other another) :
    left = other ∧ right = another := by
  obtain ⟨rfl, rests⟩ := hashBytes_append_injective same
  exact ⟨rfl, (@hashBytes_append_injective right another [] [] (by
    rw [rests])).1⟩

/-- The last digest is that of the only remaining pair. -/
theorem hashLastPair_eq
    {layer : List Hash256}
    (two : layer.length = 2) :
    [hashLastPair backend layer] =
      (pairMessages pairBytes layer).map backend.cnFastHash := by
  match layer, two with
  | [left, right], _ => simp [hashLastPair, pairMessages, hashPair]

variable {minerTxHash otherMinerTxHash : Hash256}
variable {regularTxHashes otherRegularTxHashes : List Hash256}

/-- How the tree of three or more transactions is laid out. -/
theorem treeLayout
    {count : Nat}
    (several : 3 ≤ count)
    (fits : count < 2 ^ 64) :
    ∃ levels,
      treeWidth count = 2 ^ (levels + 1) ∧
      2 * treeWidth count - count ≤ count ∧
      (count - (2 * treeWidth count - count)) % 2 = 0 ∧
      2 * treeWidth count - count +
          (count - (2 * treeWidth count - count)) / 2 =
        treeWidth count := by
  have nonzero : count - 1 ≠ 0 := by omega
  have width := treeWidth_eq (by omega) fits
  have lower := Nat.log2_self_le nonzero
  have upper : count - 1 < 2 ^ (Nat.log2 (count - 1) + 1) :=
    (Nat.log2_lt nonzero).mp (by omega)
  have positive : Nat.log2 (count - 1) ≠ 0 := by
    intro zero
    rw [zero] at upper
    omega
  obtain ⟨levels, shape⟩ := Nat.exists_eq_succ_of_ne_zero positive
  rw [Nat.pow_succ] at upper
  refine ⟨levels, by rw [width, shape], ?_, ?_, ?_⟩ <;> rw [width] <;> omega

/-- Leaf lists of one size of three or more, with one root. -/
theorem several_injective
    {first second : List Hash256}
    (lengths : first.length = second.length)
    (several : 3 ≤ first.length)
    (fits : first.length < 2 ^ 64)
    {direct : Nat}
    (isDirect : direct = 2 * treeWidth first.length - first.length)
    {layer otherLayer : List Hash256}
    (isLayer :
      layer = first.take direct ++
        pairUp backend.cnFastHash pairBytes (first.drop direct))
    (isOtherLayer :
      otherLayer = second.take direct ++
        pairUp backend.cnFastHash pairBytes (second.drop direct))
    (none :
      NoCollision backend.cnFastHash
        (pairMessages pairBytes (first.drop direct) ++
          (reduceMessages backend (treeWidth first.length) layer ++
            pairMessages pairBytes
              (reduceToPair backend (treeWidth first.length) layer)))
        (pairMessages pairBytes (second.drop direct) ++
          (reduceMessages backend (treeWidth first.length) otherLayer ++
            pairMessages pairBytes
              (reduceToPair backend (treeWidth first.length) otherLayer))))
    (same :
      hashLastPair backend
          (reduceToPair backend (treeWidth first.length) layer) =
        hashLastPair backend
          (reduceToPair backend (treeWidth first.length) otherLayer)) :
    first = second := by
  obtain ⟨levels, width, bounded, even, whole⟩ := treeLayout several fits
  rw [← isDirect] at bounded even whole
  have length : layer.length = 2 ^ (levels + 1) := by
    rw [isLayer, List.length_append, length_pairUp, List.length_take,
      List.length_drop, Nat.min_eq_left bounded, whole, width]
  have otherLength : otherLayer.length = 2 ^ (levels + 1) := by
    rw [isOtherLayer, List.length_append, length_pairUp, List.length_take,
      List.length_drop, ← lengths, Nat.min_eq_left bounded, whole, width]
  have enough : levels ≤ treeWidth first.length := by
    rw [width]
    exact (Nat.lt_two_pow_self.trans (Nat.pow_lt_pow_right (by norm_num)
      (Nat.lt_succ_self levels))).le
  obtain ⟨reduced, messages, two⟩ := reduceToPair_eq length enough
  obtain ⟨otherReduced, otherMessages, otherTwo⟩ :=
    reduceToPair_eq otherLength enough
  -- The root fixes the last pair, the last pair the layer, the layer the leaves.
  have lastPairs :
      reduceToPair backend (treeWidth first.length) layer =
        reduceToPair backend (treeWidth first.length) otherLayer := by
    refine pairMessages_injective pairBytes_injective (by omega)
      (two.trans otherTwo.symm) ?_
    refine none.right_append.right_append.map_injective ?_
    rw [← hashLastPair_eq two, ← hashLastPair_eq otherTwo, same]
  have layers : layer = otherLayer := by
    have noCollision := none.right_append.left_append
    rw [messages, otherMessages] at noCollision
    rw [reduced, otherReduced] at lastPairs
    refine @reduceLayers_injective _ _ _ _ pairBytes_injective levels 2 layer
      otherLayer ?_ ?_ noCollision lastPairs
    · rw [length, Nat.pow_succ]
    · rw [otherLength, Nat.pow_succ]
  rw [isLayer, isOtherLayer] at layers
  obtain ⟨taken, paired⟩ := List.append_inj layers (by
    rw [List.length_take, List.length_take, lengths])
  have dropped :
      first.drop direct = second.drop direct := by
    refine pairMessages_injective pairBytes_injective ?_ ?_
      (none.left_append.map_injective paired)
    · rw [List.length_drop]
      exact even
    · rw [List.length_drop, List.length_drop, lengths]
  rw [← List.take_append_drop direct first, taken, dropped,
    List.take_append_drop]

/-- Trees of one size with one root have the same leaves, or collide. -/
theorem transactionTreeHash_injective
    (lengths : regularTxHashes.length = otherRegularTxHashes.length)
    (fits : regularTxHashes.length + 1 < 2 ^ 64)
    (none :
      NoCollision backend.cnFastHash
        (treeMessages backend minerTxHash regularTxHashes)
        (treeMessages backend otherMinerTxHash otherRegularTxHashes))
    (same :
      transactionTreeHash backend minerTxHash regularTxHashes =
        transactionTreeHash backend otherMinerTxHash
          otherRegularTxHashes) :
    minerTxHash :: regularTxHashes =
      otherMinerTxHash :: otherRegularTxHashes := by
  have counts :
      (minerTxHash :: regularTxHashes).length =
        (otherMinerTxHash :: otherRegularTxHashes).length := by
    rw [List.length_cons, List.length_cons, lengths]
  unfold treeMessages at none
  unfold transactionTreeHash at same
  simp only [← counts] at none same
  by_cases alone : (minerTxHash :: regularTxHashes).length = 1
  · rw [if_pos alone, if_pos alone] at same
    have noRegular : regularTxHashes = [] := by simpa using alone
    have noOther : otherRegularTxHashes = [] := by
      rw [noRegular] at lengths
      exact List.length_eq_zero_iff.mp lengths.symm
    rw [same, noRegular, noOther]
  · simp only [if_neg alone] at none same
    by_cases two : (minerTxHash :: regularTxHashes).length = 2
    · simp only [if_pos two] at none same
      refine pairMessages_injective pairBytes_injective (by omega) counts ?_
      refine none.map_injective ?_
      rw [← hashLastPair_eq two, ← hashLastPair_eq (counts ▸ two), same]
    · simp only [if_neg two] at none same
      have several : 3 ≤ (minerTxHash :: regularTxHashes).length := by
        simp only [List.length_cons] at alone two ⊢
        omega
      exact several_injective counts several (by simpa using fits) rfl rfl rfl
        none same

end Tree

section Header

/-- Two serialized headers that differ at most in the nonce. -/
def EqualExceptNonce (first second : List UInt8) : Prop :=
  first.length = second.length ∧
    ∀ index, index = 0 ∨ 9 ≤ index → first[index]? = second[index]?

/-- A header is a byte, eight nonce bytes and the rest. -/
theorem header_shape
    {header : List UInt8}
    (long : 9 ≤ header.length) :
    ∃ version nonce tail,
      nonce.length = 8 ∧ header = version :: (nonce ++ tail) ∧
        zeroNonce header = version :: (List.replicate 8 0 ++ tail) := by
  match header, long with
  | version :: rest, long =>
      refine ⟨version, rest.take 8, rest.drop 8, ?_, ?_, ?_⟩
      · rw [List.length_take]
        simp only [List.length_cons] at long
        omega
      · rw [List.take_append_drop]
      · simp [zeroNonce]

/-- Behind the nonce a header continues with its tail. -/
theorem getElem?_header
    (version : UInt8)
    {nonce : List UInt8}
    (length : nonce.length = 8)
    (tail : List UInt8)
    (index : Nat) :
    (version :: (nonce ++ tail))[9 + index]? = tail[index]? := by
  rw [show 9 + index = (8 + index) + 1 by omega, List.getElem?_cons_succ,
    List.getElem?_append_right (by omega), length, Nat.add_sub_cancel_left]

/-- Zeroing the nonce forgets exactly the nonce. -/
theorem zeroNonce_eq_iff
    {first second : List UInt8}
    (long : 9 ≤ first.length)
    (otherLong : 9 ≤ second.length) :
    zeroNonce first = zeroNonce second ↔ EqualExceptNonce first second := by
  obtain ⟨version, nonce, tail, length, rfl, zeroed⟩ := header_shape long
  obtain ⟨other, otherNonce, otherTail, otherLength, rfl, otherZeroed⟩ :=
    header_shape otherLong
  rw [zeroed, otherZeroed]
  constructor
  · intro same
    obtain ⟨rfl, tails⟩ := List.cons.inj same
    obtain rfl := List.append_cancel_left tails
    refine ⟨by simp [length, otherLength], ?_⟩
    rintro index (rfl | behind)
    · rfl
    · obtain ⟨offset, rfl⟩ := Nat.exists_eq_add_of_le behind
      rw [getElem?_header _ length, getElem?_header _ otherLength]
  · rintro ⟨_, agree⟩
    have versions : version = other := by
      simpa using agree 0 (.inl rfl)
    have tails : tail = otherTail := by
      refine List.ext_getElem? fun index => ?_
      have here := agree (9 + index) (.inr (by omega))
      rwa [getElem?_header _ length, getElem?_header _ otherLength] at here
    rw [versions, tails]

/-- The fields of a header do not depend on its nonce. -/
theorem blockHeaderFields_nonce
    {version : UInt8}
    {nonce otherNonce rest : List UInt8}
    (length : nonce.length = 8)
    (otherLength : otherNonce.length = 8) :
    blockHeaderFields (version :: (nonce ++ rest)) =
      blockHeaderFields (version :: (otherNonce ++ rest)) := by
  have skipped :
      ∀ bytes : List UInt8, bytes.length = 8 →
        MiningHeader.skip 8 (bytes ++ rest) = .ok ((), rest) := by
    intro bytes eight
    unfold MiningHeader.skip
    rw [cursor_bind_of_ok (takeBytes_append eight _ rest)]
    rfl
  have version' :
      ∀ bytes : List UInt8,
        MiningHeader.readU8 (version :: bytes) = .ok (version, bytes) :=
    fun _ => rfl
  unfold blockHeaderFields
  rw [cursor_bind_of_ok (version' _), cursor_bind_of_ok (version' _),
    cursor_bind_of_ok (skipped nonce length),
    cursor_bind_of_ok (skipped otherNonce otherLength)]

/-- The fields of a header are delimited by its bytes. -/
theorem blockHeaderFields_selfDelimiting :
    SelfDelimiting blockHeaderFields := by
  have skips :
      ∀ count, SelfDelimiting (MiningHeader.skip count) := fun count =>
    .bind (.takeBytes count _) fun _ => .pure ()
  exact .bind (.takeByte _) fun _ => .bind (skips 8) fun _ =>
    .bind (skips 32) fun _ => .bind (.takeVarint _ _ _) fun _ =>
    .bind (.takeVarint _ _ _) fun _ => .bind (.takeByte _) fun _ => .pure ()

/-- A parsed header: its bytes, and how they are delimited without the nonce. -/
theorem parsePowBlockHeader_eq_ok
    {blockBlob : List UInt8}
    {header : ParsedBlockHeader}
    (parsed : parsePowBlockHeader blockBlob = .ok header) :
    header.serialized =
        zeroNonce (blockBlob.take header.serializedSize) ∧
      9 ≤ (blockBlob.take header.serializedSize).length ∧
      ∀ other,
        blockHeaderFields (header.serialized ++ other) = .ok ((), other) := by
  unfold parsePowBlockHeader at parsed
  obtain ⟨⟨_, rest⟩, read, parsed⟩ := except_bind_eq_ok.mp parsed
  simp only at parsed
  split_ifs at parsed with short
  cases parsed
  have long := Nat.not_lt.mp short
  refine ⟨rfl, long, ?_⟩
  intro other
  obtain ⟨consumed, rfl, again⟩ := blockHeaderFields_selfDelimiting read
  simp only [List.length_append, Nat.add_sub_cancel,
    List.take_left] at long ⊢
  obtain ⟨version, nonce, tail, length, rfl, zeroed⟩ := header_shape long
  have unchanged := again other
  rw [zeroed, List.cons_append, List.append_assoc,
    blockHeaderFields_nonce List.length_replicate length]
  simpa using unchanged

end Header

/-- What a successful derivation computes. -/
structure Derives
    (backend : Backend)
    (blockBlob : List UInt8)
    (work : MiningHeaderWork) :
    Prop where
  header : parsePowBlockHeader blockBlob = .ok work.blockHeader
  minerTxHash :
    work.minerTxPrefix.hash =
      backend.cnFastHash work.minerTxPrefix.serialized
  root :
    work.txTreeRoot =
      transactionTreeHash backend work.minerTxPrefix.hash
        work.txHashes.hashes
  count : work.txHashes.hashes.length + 1 < 2 ^ 64
  blob :
    work.hashingBlob =
      work.blockHeader.serialized ++ hashBytes work.txTreeRoot ++
        varint (work.txHashes.hashes.length + 1)
  headerHash : work.headerHash = backend.cnFastHash work.hashingBlob

theorem deriveMiningHeaderWork_eq_ok
    {backend : Backend}
    {blockBlob : List UInt8}
    {work : MiningHeaderWork}
    (derived : deriveMiningHeaderWork backend blockBlob = .ok work) :
    Derives backend blockBlob work := by
  unfold deriveMiningHeaderWork at derived
  obtain ⟨header, parsed, derived⟩ := except_bind_eq_ok.mp derived
  obtain ⟨minerTxPrefix, prefixParsed, derived⟩ :=
    except_bind_eq_ok.mp derived
  obtain ⟨txHashes, _, derived⟩ := except_bind_eq_ok.mp derived
  obtain ⟨hashingBlob, made, shape⟩ := except_bind_eq_ok.mp derived
  cases shape
  unfold parseHf6MinerTxPrefix at prefixParsed
  obtain ⟨⟨_, _⟩, _, prefixShape⟩ := except_bind_eq_ok.mp prefixParsed
  cases prefixShape
  unfold makeHashingBlob at made
  by_cases outOfRange :
      txHashes.hashes.length + 1 = 0 ∨
        txHashes.hashes.length + 1 > 2 ^ 64 - 1
  · rw [if_pos outOfRange] at made
    cases made
  · rw [if_neg outOfRange] at made
    cases made
    have count : txHashes.hashes.length + 1 < 2 ^ 64 := by
      omega
    exact ⟨parsed, rfl, rfl, count, rfl, rfl⟩

/-- The bytes of the block header, with its nonce. -/
def serializedBlockHeader
    (blockBlob : List UInt8)
    (work : MiningHeaderWork) :
    List UInt8 :=
  blockBlob.take work.blockHeader.serializedSize

/-- The three parts of a block that the mining header commits to. -/
structure SameCommitment
    (blockBlob otherBlob : List UInt8)
    (work otherWork : MiningHeaderWork) :
    Prop where
  header :
    EqualExceptNonce (serializedBlockHeader blockBlob work)
      (serializedBlockHeader otherBlob otherWork)
  minerTxPrefix :
    work.minerTxPrefix.serialized = otherWork.minerTxPrefix.serialized
  txHashes : work.txHashes.hashes = otherWork.txHashes.hashes

/--
Accepted blobs with one header hash carry the same commitment, or two different
byte strings hashed in the two derivations collide; and blobs with the same
commitment have one header hash.
-/
theorem headerHash_commits
    {backend : Backend}
    {blockBlob otherBlob : List UInt8}
    {work otherWork : MiningHeaderWork}
    (derived : deriveMiningHeaderWork backend blockBlob = .ok work)
    (otherDerived :
      deriveMiningHeaderWork backend otherBlob = .ok otherWork) :
    (work.headerHash = otherWork.headerHash →
      (∃ message ∈ hashedMessages backend work,
        ∃ other ∈ hashedMessages backend otherWork,
          message ≠ other ∧
            backend.cnFastHash message = backend.cnFastHash other) ∨
      SameCommitment blockBlob otherBlob work otherWork) ∧
    (SameCommitment blockBlob otherBlob work otherWork →
      work.headerHash = otherWork.headerHash) := by
  have derives := deriveMiningHeaderWork_eq_ok derived
  have otherDerives := deriveMiningHeaderWork_eq_ok otherDerived
  obtain ⟨zeroed, long, delimited⟩ := parsePowBlockHeader_eq_ok derives.header
  obtain ⟨otherZeroed, otherLong, otherDelimited⟩ :=
    parsePowBlockHeader_eq_ok otherDerives.header
  constructor
  · intro sameHash
    by_cases collide :
        NoCollision backend.cnFastHash (hashedMessages backend work)
          (hashedMessages backend otherWork)
    · right
      have blobs : work.hashingBlob = otherWork.hashingBlob := by
        refine collide _ (by simp [hashedMessages]) _
          (by simp [hashedMessages]) ?_
        rw [← derives.headerHash, ← otherDerives.headerHash, sameHash]
      rw [derives.blob, otherDerives.blob, List.append_assoc,
        List.append_assoc] at blobs
      obtain ⟨headers, rests⟩ :=
        field_unique (delimited _) (otherDelimited _) blobs
      obtain ⟨roots, counts⟩ := hashBytes_append_injective rests
      have lengths : work.txHashes.hashes.length =
          otherWork.txHashes.hashes.length := by
        have same := varint_injective derives.count otherDerives.count counts
        omega
      rw [derives.root, otherDerives.root] at roots
      have leaves :=
        transactionTreeHash_injective lengths derives.count
          (fun message member other otherMember =>
            collide message (by simp [hashedMessages, member]) other
              (by simp [hashedMessages, otherMember])) roots
      obtain ⟨minerHashes, regular⟩ := List.cons.inj leaves
      refine ⟨?_, ?_, regular⟩
      · rw [zeroed, otherZeroed] at headers
        exact (zeroNonce_eq_iff long otherLong).mp headers
      · refine collide _ (by simp [hashedMessages]) _
          (by simp [hashedMessages]) ?_
        rw [← derives.minerTxHash, ← otherDerives.minerTxHash, minerHashes]
    · left
      unfold NoCollision at collide
      push Not at collide
      obtain ⟨message, member, other, otherMember, digests, differ⟩ := collide
      exact ⟨message, member, other, otherMember, differ, digests⟩
  · rintro ⟨headers, prefixes, regular⟩
    have zeroedHeaders :
        work.blockHeader.serialized = otherWork.blockHeader.serialized := by
      rw [zeroed, otherZeroed]
      exact (zeroNonce_eq_iff long otherLong).mpr headers
    rw [derives.headerHash, otherDerives.headerHash, derives.blob,
      otherDerives.blob, derives.root, otherDerives.root,
      derives.minerTxHash, otherDerives.minerTxHash, zeroedHeaders, prefixes,
      regular]

/-- A backend whose hash is the number the bytes spell. -/
def spellingBackend : Backend where
  cnFastHash := fun bytes => BitVec.ofNat 256 (ofBigEndian bytes)
  progpowzAvailable := true
  progpowzHash := fun _ _ _ _ => .ok { finalHash := 0, mixHash := 0 }

/-- The proofs of a miner transaction with two outputs. -/
def sampleProofs : List UInt8 :=
  let keys (count : Nat) : List UInt8 :=
    UInt8.ofNat count :: List.replicate (32 * count) 0
  [0, 0, 2, 47] ++ keys 7 ++ keys 7 ++ List.replicate (6 * 32) 0 ++
    keys 2 ++ keys 2 ++ keys 2 ++ List.replicate 32 0 ++
    [48] ++ List.replicate 96 0

/-- A block with two regular transactions. -/
def sampleBlock (nonce : UInt8) : List UInt8 :=
  [2] ++ List.replicate 8 nonce ++ List.replicate 32 5 ++ [1, 1, 0] ++
    [4, 0, 0, 0, 6] ++ sampleProofs ++
    [2] ++ List.replicate 32 1 ++ List.replicate 32 9

/-- The work derived from the sample blocks. -/
def sampleWork : MiningHeaderWork :=
  let header : List UInt8 :=
    [2] ++ List.replicate 8 0 ++ List.replicate 32 5 ++ [1, 1, 0]
  let minerTxHash := spellingBackend.cnFastHash [4, 0, 0, 0, 6]
  let hashes : List Hash256 :=
    [ BitVec.ofNat 256 (ofBigEndian (List.replicate 32 1))
    , BitVec.ofNat 256 (ofBigEndian (List.replicate 32 9)) ]
  let txTreeRoot := transactionTreeHash spellingBackend minerTxHash hashes
  let hashingBlob := header ++ hashBytes txTreeRoot ++ [3]
  { blockHeader := { serializedSize := 44, serialized := header }
    minerTxPrefix := {
      version := 4, hardforkId := 6, vinCount := 0, extraCount := 0
      voutCount := 0, serializedSize := 5, serialized := [4, 0, 0, 0, 6]
      hash := minerTxHash }
    txHashes := {
      serializedOffset := 49 + sampleProofs.length, serializedSize := 65
      hashes }
    txTreeRoot, hashingBlob
    headerHash := spellingBackend.cnFastHash hashingBlob }

/-- Two blocks that differ in their nonces only carry one commitment. -/
theorem sampleBlock_commits :
    sampleBlock 3 ≠ sampleBlock 4 ∧
      deriveMiningHeaderWork spellingBackend (sampleBlock 3) =
        .ok sampleWork ∧
      deriveMiningHeaderWork spellingBackend (sampleBlock 4) =
        .ok sampleWork ∧
      ((∃ message ∈ hashedMessages spellingBackend sampleWork,
        ∃ other ∈ hashedMessages spellingBackend sampleWork,
          message ≠ other ∧
            spellingBackend.cnFastHash message =
              spellingBackend.cnFastHash other) ∨
        SameCommitment (sampleBlock 3) (sampleBlock 4) sampleWork
          sampleWork) := by
  have derived :
      deriveMiningHeaderWork spellingBackend (sampleBlock 3) =
        .ok sampleWork := by
    decide +kernel
  have otherDerived :
      deriveMiningHeaderWork spellingBackend (sampleBlock 4) =
        .ok sampleWork := by
    decide +kernel
  exact ⟨by decide, derived, otherDerived,
    (headerHash_commits derived otherDerived).1 rfl⟩

end ZanoP2pool
