import ZanoP2pool.Foundation.ReaderSimulation
import ZanoP2pool.MiningHeaderCommitment

namespace ZanoP2pool

open Foundation
open MiningHeader

/-!
# The layout of a parsed block

A block that the derivation accepts is its header, the prefix of its miner
transaction, the proofs of that transaction and the list of transaction hashes.
Each of the first three parts is delimited by its own bytes: whatever follows it,
it is read in the same way.
-/

section Delimited

theorem miningHeader_skip_selfDelimiting
    (count : Nat) :
    SelfDelimiting (MiningHeader.skip count) :=
  .bind (.takeBytes count _) fun _ => .pure ()

theorem miningHeader_readU8_selfDelimiting :
    SelfDelimiting MiningHeader.readU8 :=
  .takeByte _

theorem miningHeader_readVarint_selfDelimiting :
    SelfDelimiting MiningHeader.readVarint :=
  .takeVarint _ _ _

theorem repeatRead_selfDelimiting
    {reader : Cursor Exception Unit}
    (delimited : SelfDelimiting reader)
    (count : Nat) :
    SelfDelimiting (repeatRead reader count) := by
  induction count with
  | zero => exact .pure ()
  | succ count inductionHypothesis =>
      exact .bind delimited fun _ => inductionHypothesis

theorem skipCurrentCoinbaseExtra_selfDelimiting :
    SelfDelimiting skipCurrentCoinbaseExtra := by
  refine .bind miningHeader_readU8_selfDelimiting fun tag => ?_
  split_ifs
  · exact .bind miningHeader_readVarint_selfDelimiting fun _ =>
      miningHeader_skip_selfDelimiting _
  · exact .bind miningHeader_readVarint_selfDelimiting fun _ => .pure ()
  · exact .bind miningHeader_readVarint_selfDelimiting fun _ =>
      .bind (miningHeader_skip_selfDelimiting 32) fun _ =>
      .bind miningHeader_readVarint_selfDelimiting fun _ => .pure ()
  · exact miningHeader_skip_selfDelimiting 32
  · exact .throw _

theorem skipCurrentCoinbaseOutput_selfDelimiting :
    SelfDelimiting skipCurrentCoinbaseOutput :=
  .bind miningHeader_readU8_selfDelimiting fun _ =>
    .guarded _ fun _ => .bind miningHeader_readU8_selfDelimiting fun _ =>
    .guarded _ fun _ => .bind (miningHeader_skip_selfDelimiting _) fun _ =>
    .bind (miningHeader_skip_selfDelimiting _) fun _ =>
    miningHeader_skip_selfDelimiting _

theorem skipMinerInput_selfDelimiting :
    SelfDelimiting skipMinerInput :=
  .bind miningHeader_readU8_selfDelimiting fun _ => .guarded _ fun _ =>
    .bind miningHeader_readVarint_selfDelimiting fun _ => .pure ()

theorem minerTxPrefixFields_selfDelimiting :
    SelfDelimiting minerTxPrefixFields :=
  .bind miningHeader_readVarint_selfDelimiting fun _ =>
    .guarded _ fun _ => .bind miningHeader_readVarint_selfDelimiting fun _ =>
    .bind (repeatRead_selfDelimiting skipMinerInput_selfDelimiting _) fun _ =>
    .bind miningHeader_readVarint_selfDelimiting fun _ =>
    .bind (repeatRead_selfDelimiting
      skipCurrentCoinbaseExtra_selfDelimiting _) fun _ =>
    .bind miningHeader_readVarint_selfDelimiting fun _ =>
    .bind (repeatRead_selfDelimiting
      skipCurrentCoinbaseOutput_selfDelimiting _) fun _ =>
    .bind miningHeader_readU8_selfDelimiting fun _ => .pure _

/-- A count is a number in its shortest form. -/
theorem readCount_eq :
    readCount =
      takeShortest MiningHeader.readVarint
        (.runtimeError "non-canonical HF6 suffix count") :=
  rfl

theorem readCount_selfDelimiting :
    SelfDelimiting readCount :=
  .takeShortest miningHeader_readVarint_selfDelimiting _

theorem skipKeys_selfDelimiting
    (maximum : Nat) :
    SelfDelimiting (skipKeys maximum) :=
  .bind readCount_selfDelimiting fun _ => .guarded _ fun _ =>
    .bind (miningHeader_skip_selfDelimiting _) fun _ => .pure _

/-- A count below 128 is one byte. -/
theorem eq_cons_of_readCount
    {bytes rest : List UInt8}
    {count : Nat}
    (small : count < 128)
    (read : readCount bytes = .ok (count, rest)) :
    bytes = UInt8.ofNat count :: rest := by
  rw [readCount_eq] at read
  obtain ⟨read, short⟩ := takeShortest_eq_ok.mp read
  refine takeVarint_single read ?_
  rw [short, varint, varintGroups, if_pos small, List.length_singleton]

end Delimited

section Proofs

/-- The counts of the vectors of a range proof, which is skipped. -/
def skipRangeVectors : Cursor Exception (Nat × Nat × Nat × Nat × Nat) := do
  let left ← skipKeys 11
  let right ← skipKeys 11
  skip (6 * 32)
  let outputs ← skipKeys 32
  let y0s ← skipKeys 32
  let y1s ← skipKeys 32
  skip 32
  return (left, right, outputs, y0s, y1s)

/-- Whether the vectors of a range proof have the lengths of one another. -/
def ConsistentCounts : Nat × Nat × Nat × Nat × Nat → Prop
  | (left, right, outputs, y0s, y1s) =>
      ¬ (outputs < 2 ∨ y0s ≠ outputs ∨ y1s ≠ outputs ∨
        left ≠ 6 + capacityDoublings outputs 1 outputs ∨
        right ≠ 6 + capacityDoublings outputs 1 outputs)

/-- The forward parse of the proofs, by the vectors of the range proof. -/
theorem skipHf6Proofs_eq :
    skipHf6Proofs = (do
      expectRead readCount 0
      expectRead readCount 0
      expectRead readCount 2
      expectRead readU8 47
      let (left, right, outputs, y0s, y1s) ← skipRangeVectors
      let rounds := 6 + capacityDoublings outputs 1 outputs
      if outputs < 2 ∨ y0s ≠ outputs ∨ y1s ≠ outputs ∨
          left ≠ rounds ∨ right ≠ rounds then
        throw (.runtimeError "inconsistent current HF6 range-proof counts")
      else do
        let balance ← readU8
        if balance ≠ 48 then
          throw (.runtimeError "missing current HF6 balance proof")
        else
          skip 96) := by
  simp only [skipHf6Proofs, skipRangeVectors, bind_assoc, pure_bind]

theorem skipRangeVectors_selfDelimiting :
    SelfDelimiting skipRangeVectors :=
  .bind (skipKeys_selfDelimiting 11) fun _ =>
    .bind (skipKeys_selfDelimiting 11) fun _ =>
    .bind (miningHeader_skip_selfDelimiting _) fun _ =>
    .bind (skipKeys_selfDelimiting 32) fun _ =>
    .bind (skipKeys_selfDelimiting 32) fun _ =>
    .bind (skipKeys_selfDelimiting 32) fun _ =>
    .bind (miningHeader_skip_selfDelimiting 32) fun _ => .pure _

/-- The bytes of the proofs of a miner transaction. -/
structure ProofLayout
    (proofs range balance : List UInt8)
    (counts : Nat × Nat × Nat × Nat × Nat) :
    Prop where
  whole : proofs = [0, 0, 2, 47] ++ (range ++ 48 :: balance)
  rangeRead :
    ∀ other, skipRangeVectors (range ++ other) = .ok (counts, other)
  consistent : ConsistentCounts counts
  balanceLength : balance.length = 96

theorem expectRead_eq_ok
    {α : Type}
    [DecidableEq α]
    {reader : Cursor Exception α}
    {expected : α}
    {bytes rest : List UInt8} :
    expectRead reader expected bytes = .ok ((), rest) ↔
      reader bytes = .ok (expected, rest) := by
  unfold expectRead
  rw [cursor_bind_eq_ok]
  constructor
  · rintro ⟨value, middle, read, returned⟩
    obtain ⟨same, returned⟩ := cursor_guard_eq_ok.mp returned
    obtain ⟨_, rfl⟩ := cursor_pure_eq_ok.mp returned
    rw [read, not_not.mp same]
  · intro read
    exact ⟨expected, rest, read,
      cursor_guard_eq_ok.mpr ⟨not_not.mpr rfl, rfl⟩⟩

theorem miningHeader_skip_eq_ok
    {count : Nat}
    {bytes rest : List UInt8} :
    MiningHeader.skip count bytes = .ok ((), rest) ↔
      ∃ skipped, skipped.length = count ∧ bytes = skipped ++ rest := by
  unfold MiningHeader.skip
  simp only [cursor_bind_eq_ok, takeBytes_eq_ok, cursor_pure_eq_ok]
  constructor
  · rintro ⟨skipped, middle, ⟨sized, rfl⟩, _, rfl⟩
    exact ⟨skipped, sized, rfl⟩
  · rintro ⟨skipped, sized, rfl⟩
    exact ⟨skipped, rest, ⟨sized, rfl⟩, trivial, rfl⟩

/-- What the proofs of an accepted miner transaction look like. -/
theorem skipHf6Proofs_eq_ok
    {bytes rest : List UInt8}
    (read : skipHf6Proofs bytes = .ok ((), rest)) :
    ∃ proofs range balance counts,
      bytes = proofs ++ rest ∧ ProofLayout proofs range balance counts := by
  rw [skipHf6Proofs_eq] at read
  obtain ⟨_, bytes1, attachments, read⟩ := cursor_bind_eq_ok.mp read
  obtain ⟨_, bytes2, signatures, read⟩ := cursor_bind_eq_ok.mp read
  obtain ⟨_, bytes3, proofCount, read⟩ := cursor_bind_eq_ok.mp read
  obtain ⟨_, bytes4, tag, read⟩ := cursor_bind_eq_ok.mp read
  obtain ⟨⟨left, right, outputs, y0s, y1s⟩, bytes5, vectors, read⟩ :=
    cursor_bind_eq_ok.mp read
  obtain ⟨consistent, read⟩ := cursor_guard_eq_ok.mp read
  obtain ⟨balanceTag, bytes6, balanceRead, read⟩ := cursor_bind_eq_ok.mp read
  obtain ⟨tagged, read⟩ := cursor_guard_eq_ok.mp read
  obtain ⟨balance, balanceLength, rfl⟩ := miningHeader_skip_eq_ok.mp read
  obtain ⟨range, rfl, again⟩ := skipRangeVectors_selfDelimiting vectors
  obtain rfl := eq_cons_of_readCount (by norm_num)
    (expectRead_eq_ok.mp attachments)
  obtain rfl := eq_cons_of_readCount (by norm_num)
    (expectRead_eq_ok.mp signatures)
  obtain rfl := eq_cons_of_readCount (by norm_num)
    (expectRead_eq_ok.mp proofCount)
  obtain rfl := takeByte_eq_ok.mp (expectRead_eq_ok.mp tag)
  obtain rfl := takeByte_eq_ok.mp balanceRead
  obtain rfl := not_not.mp tagged
  refine ⟨_, range, balance, (left, right, outputs, y0s, y1s), ?_,
    rfl, again, consistent, balanceLength⟩
  simp

end Proofs

section Block

/-- The four parts of an accepted block and what was read from each. -/
structure BlockLayout
    (backend : Backend)
    (blockBlob : List UInt8)
    (work : MiningHeaderWork)
    (header minerTxPrefix proofs trailer : List UInt8) :
    Prop where
  whole : blockBlob = header ++ (minerTxPrefix ++ (proofs ++ trailer))
  headerRead : ∀ other, blockHeaderFields (header ++ other) = .ok ((), other)
  headerSize : work.blockHeader.serializedSize = header.length
  headerBytes : work.blockHeader.serialized = zeroNonce header
  prefixRead :
    ∀ other,
      parseHf6MinerTxPrefix backend (minerTxPrefix ++ other) =
        .ok work.minerTxPrefix
  prefixBytes : work.minerTxPrefix.serialized = minerTxPrefix
  prefixSize : work.minerTxPrefix.serializedSize = minerTxPrefix.length
  proofLayout : ∃ range balance counts, ProofLayout proofs range balance counts
  trailerOffset :
    work.txHashes.serializedOffset =
      header.length + minerTxPrefix.length + proofs.length
  trailerSize : work.txHashes.serializedSize = trailer.length
  trailerRead :
    ∃ digests,
      readCount trailer = .ok (work.txHashes.hashes.length, digests) ∧
        digests.length = 32 * work.txHashes.hashes.length ∧
        work.txHashes.hashes =
          splitHashes work.txHashes.hashes.length digests

@[simp] theorem length_splitHashes
    (count : Nat)
    (bytes : List UInt8) :
    (splitHashes count bytes).length = count := by
  induction count generalizing bytes with
  | zero => rfl
  | succ count inductionHypothesis =>
      rw [splitHashes, List.length_cons, inductionHypothesis]

/-- The bytes of a header that the header parser reads. -/
theorem parsePowBlockHeader_split
    {blockBlob : List UInt8}
    {header : ParsedBlockHeader}
    (parsed : parsePowBlockHeader blockBlob = .ok header) :
    ∃ bytes rest,
      blockBlob = bytes ++ rest ∧
      (∀ other, blockHeaderFields (bytes ++ other) = .ok ((), other)) ∧
      header = {
        serializedSize := bytes.length
        serialized := zeroNonce bytes } := by
  unfold parsePowBlockHeader at parsed
  obtain ⟨⟨_, rest⟩, read, parsed⟩ := except_bind_eq_ok.mp parsed
  simp only at parsed
  split_ifs at parsed
  cases parsed
  obtain ⟨bytes, rfl, again⟩ := blockHeaderFields_selfDelimiting read
  refine ⟨bytes, rest, rfl, again, ?_⟩
  simp

/-- The bytes of a prefix that the prefix parser reads. -/
theorem parseHf6MinerTxPrefix_split
    {backend : Backend}
    {minerTxBlob : List UInt8}
    {parsed : ParsedMinerTxPrefix}
    (read : parseHf6MinerTxPrefix backend minerTxBlob = .ok parsed) :
    ∃ bytes rest,
      minerTxBlob = bytes ++ rest ∧
      parsed.serialized = bytes ∧
      parsed.serializedSize = bytes.length ∧
      ∀ other, parseHf6MinerTxPrefix backend (bytes ++ other) = .ok parsed := by
  unfold parseHf6MinerTxPrefix at read
  obtain ⟨⟨⟨version, vinCount, extraCount, voutCount, hardforkId⟩, rest⟩,
    fields, shape⟩ := except_bind_eq_ok.mp read
  cases shape
  obtain ⟨bytes, rfl, again⟩ := minerTxPrefixFields_selfDelimiting fields
  refine ⟨bytes, rest, rfl, by simp, by simp, fun other => ?_⟩
  unfold parseHf6MinerTxPrefix
  rw [again other]
  simp [bind, Except.bind, pure, Except.pure]

/-- What the parser of the transaction hashes reads behind the prefix. -/
theorem parseHf6TxHashTrailer_split
    {blockBlob : List UInt8}
    {offset : Nat}
    {parsed : ParsedTxHashTrailer}
    (read : parseHf6TxHashTrailer blockBlob offset = .ok parsed) :
    ∃ proofs range balance counts trailer digests,
      blockBlob.drop offset = proofs ++ trailer ∧
      ProofLayout proofs range balance counts ∧
      readCount trailer = .ok (parsed.hashes.length, digests) ∧
      digests.length = 32 * parsed.hashes.length ∧
      parsed.hashes = splitHashes parsed.hashes.length digests ∧
      parsed.serializedOffset = blockBlob.length - trailer.length ∧
      parsed.serializedSize = trailer.length := by
  unfold parseHf6TxHashTrailer at read
  split_ifs at read
  obtain ⟨⟨_, trailer⟩, skipped, read⟩ := except_bind_eq_ok.mp read
  obtain ⟨⟨count, digests⟩, counted, read⟩ := except_bind_eq_ok.mp read
  simp only at read
  split_ifs at read with mismatch
  cases read
  obtain ⟨proofs, range, balance, counts, whole, layout⟩ :=
    skipHf6Proofs_eq_ok skipped
  push Not at mismatch
  obtain ⟨aligned, counts'⟩ := mismatch
  refine ⟨proofs, range, balance, counts, trailer, digests, whole, layout, ?_⟩
  rw [length_splitHashes]
  exact ⟨counted, by omega, rfl, rfl, rfl⟩

/-- An accepted block has the four parts. -/
theorem deriveMiningHeaderWork_layout
    {backend : Backend}
    {blockBlob : List UInt8}
    {work : MiningHeaderWork}
    (derived : deriveMiningHeaderWork backend blockBlob = .ok work) :
    ∃ header minerTxPrefix proofs trailer,
      BlockLayout backend blockBlob work header minerTxPrefix proofs
        trailer := by
  unfold deriveMiningHeaderWork at derived
  obtain ⟨blockHeader, headerParsed, derived⟩ := except_bind_eq_ok.mp derived
  obtain ⟨parsedPrefix, prefixParsed, derived⟩ := except_bind_eq_ok.mp derived
  obtain ⟨txHashes, trailerParsed, derived⟩ := except_bind_eq_ok.mp derived
  obtain ⟨hashingBlob, _, shape⟩ := except_bind_eq_ok.mp derived
  cases shape
  obtain ⟨header, afterHeader, rfl, headerRead, rfl⟩ :=
    parsePowBlockHeader_split headerParsed
  simp only [List.drop_left] at prefixParsed
  obtain ⟨minerTxPrefix, afterPrefix, rfl, prefixBytes, prefixSize,
    prefixRead⟩ := parseHf6MinerTxPrefix_split prefixParsed
  simp only [prefixSize] at trailerParsed
  obtain ⟨proofs, range, balance, counts, trailer, digests, behind, layout,
    counted, digestsLength, split, offset, size⟩ :=
    parseHf6TxHashTrailer_split trailerParsed
  rw [← List.append_assoc, ← List.length_append, List.drop_left] at behind
  subst behind
  refine ⟨header, minerTxPrefix, proofs, trailer, rfl, headerRead, rfl, rfl,
    prefixRead, prefixBytes, prefixSize, ⟨range, balance, counts, layout⟩, ?_,
    size, digests, counted, digestsLength, split⟩
  rw [offset]
  simp only [List.length_append]
  omega

end Block

end ZanoP2pool
