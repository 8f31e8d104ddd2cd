import ZanoP2pool.MiningHeaderLayout
import ZanoP2pool.P2pMinerTxProofs

namespace ZanoP2pool

open Foundation

/-!
# Slices of the proofs of a block

A block is parsed forwards, while the verifiers of its proofs cut their arguments
out of the blob from the offset of the transaction hashes backwards and parse the
range proof a second time.  Both see the same bytes and the same counts.
-/

section Rounds

/-- Doubling a power of two until it holds the outputs. -/
theorem capacityDoublings_eq
    {budget exponent outputs : Nat}
    (enough : outputs ≤ 2 ^ (exponent + budget)) :
    capacityDoublings budget (2 ^ exponent) outputs =
      Nat.clog 2 outputs - exponent := by
  induction budget generalizing exponent with
  | zero =>
      have reached := (Nat.clog_le_iff_le_pow Nat.one_lt_two).mpr enough
      rw [capacityDoublings]
      omega
  | succ budget inductionHypothesis =>
      rw [capacityDoublings]
      by_cases small : 2 ^ exponent < outputs
      · have more := (Nat.lt_clog_iff_pow_lt Nat.one_lt_two).mpr small
        have later :=
          @inductionHypothesis (exponent + 1)
            (enough.trans_eq (by congr 1; omega))
        rw [if_pos small, ← Nat.pow_succ, later]
        omega
      · have reached :=
          (Nat.clog_le_iff_le_pow Nat.one_lt_two).mpr (Nat.not_lt.mp small)
        rw [if_neg small]
        omega

/-- The rounds the forward parse counts. -/
theorem capacityDoublings_eq_clog
    (outputs : Nat) :
    capacityDoublings outputs 1 outputs = Nat.clog 2 outputs := by
  have enough : outputs ≤ 2 ^ (0 + outputs) := by
    rw [Nat.zero_add]
    exact Nat.lt_two_pow_self.le
  exact capacityDoublings_eq enough

/-- The rounds the parser of range proofs expects. -/
theorem ceilLog2_eq_clog
    (outputs : Nat) :
    ceilLog2 outputs = Nat.clog 2 outputs := by
  unfold ceilLog2
  by_cases few : outputs ≤ 1
  · rw [if_pos few, Nat.clog_of_right_le_one few]
  · rw [if_neg few]
    have nonzero : outputs - 1 ≠ 0 := by omega
    have lower := Nat.log2_self_le nonzero
    have upper : outputs - 1 < 2 ^ (Nat.log2 (outputs - 1) + 1) :=
      (Nat.log2_lt nonzero).mp (by omega)
    have above : Nat.log2 (outputs - 1) < Nat.clog 2 outputs :=
      (Nat.lt_clog_iff_pow_lt Nat.one_lt_two).mpr (by omega)
    have below : Nat.clog 2 outputs ≤ Nat.log2 (outputs - 1) + 1 :=
      (Nat.clog_le_iff_le_pow Nat.one_lt_two).mpr (by omega)
    omega

end Rounds

section Vectors

/-- Both parsers read numbers in their shortest form. -/
theorem proofData_readVarint_iff
    {bytes rest : List UInt8}
    {value : Nat} :
    ProofData.readVarint bytes = .ok (value, rest) ↔
      readCount bytes = .ok (value, rest) := by
  have shape :
      ProofData.readVarint =
        takeShortest
          (takeVarint ProofData.truncated
            (.runtimeError "miner-tx varint overflows uint64")
            (.runtimeError "miner-tx varint is too long"))
          (.runtimeError "non-canonical miner-tx varint") :=
    rfl
  rw [shape, readCount_eq]
  exact SameSuccess.takeShortest (.takeVarint _ _ _ _ _ _) _ _ bytes value rest

/-- A key is read wherever its bytes can be skipped. -/
theorem exists_readKey_iff
    {bytes rest : List UInt8} :
    (∃ key, ProofData.readKey bytes = .ok (key, rest)) ↔
      MiningHeader.skip 32 bytes = .ok ((), rest) := by
  unfold ProofData.readKey
  simp only [takeBigEndian, cursor_bind_eq_ok, takeBytes_eq_ok,
    cursor_pure_eq_ok, miningHeader_skip_eq_ok]
  constructor
  · rintro ⟨_, _, _, ⟨leading, _, ⟨sized, rfl⟩, _, rfl⟩, _, rfl⟩
    exact ⟨leading, sized, rfl⟩
  · rintro ⟨leading, sized, rfl⟩
    exact ⟨_, _, rest, ⟨leading, rest, ⟨sized, rfl⟩, rfl, rfl⟩, rfl, rfl⟩

/-- Skipping twice is skipping the sum. -/
theorem miningHeader_skip_add
    {first second : Nat}
    {bytes rest : List UInt8} :
    MiningHeader.skip (first + second) bytes = .ok ((), rest) ↔
      ∃ middle,
        MiningHeader.skip first bytes = .ok ((), middle) ∧
          MiningHeader.skip second middle = .ok ((), rest) := by
  simp only [miningHeader_skip_eq_ok]
  constructor
  · rintro ⟨skipped, sized, rfl⟩
    refine ⟨skipped.drop first ++ rest, ⟨skipped.take first, ?_, ?_⟩,
      skipped.drop first, ?_, rfl⟩
    · rw [List.length_take]
      omega
    · rw [← List.append_assoc, List.take_append_drop]
    · rw [List.length_drop]
      omega
  · rintro ⟨_, ⟨leading, leadingSized, rfl⟩, trailing, trailingSized, rfl⟩
    exact ⟨leading ++ trailing,
      by rw [List.length_append, leadingSized, trailingSized],
      (List.append_assoc _ _ _).symm⟩

/-- The six points and scalars of a range proof. -/
theorem sixKeys_iff
    {bytes rest : List UInt8} :
    (∃ a0 bytes1, ProofData.readKey bytes = .ok (a0, bytes1) ∧
      ∃ a bytes2, ProofData.readKey bytes1 = .ok (a, bytes2) ∧
      ∃ b bytes3, ProofData.readKey bytes2 = .ok (b, bytes3) ∧
      ∃ r bytes4, ProofData.readKey bytes3 = .ok (r, bytes4) ∧
      ∃ s bytes5, ProofData.readKey bytes4 = .ok (s, bytes5) ∧
      ∃ delta, ProofData.readKey bytes5 = .ok (delta, rest)) ↔
      MiningHeader.skip (6 * 32) bytes = .ok ((), rest) := by
  have sum : 6 * 32 = 32 + (32 + (32 + (32 + (32 + 32)))) := rfl
  simp only [sum, miningHeader_skip_add, ← exists_readKey_iff]
  constructor
  · rintro ⟨a0, _, a0Read, a, _, aRead, b, _, bRead, r, _, rRead, s, _, sRead,
      delta, deltaRead⟩
    exact ⟨_, ⟨a0, a0Read⟩, _, ⟨a, aRead⟩, _, ⟨b, bRead⟩, _, ⟨r, rRead⟩, _,
      ⟨s, sRead⟩, delta, deltaRead⟩
  · rintro ⟨_, ⟨a0, a0Read⟩, _, ⟨a, aRead⟩, _, ⟨b, bRead⟩, _, ⟨r, rRead⟩, _,
      ⟨s, sRead⟩, delta, deltaRead⟩
    exact ⟨a0, _, a0Read, a, _, aRead, b, _, bRead, r, _, rRead, s, _, sRead,
      delta, deltaRead⟩

/-- Keys are read wherever their bytes can be skipped. -/
theorem exists_readKeys_iff
    {count : Nat}
    {bytes rest : List UInt8} :
    (∃ keys, ProofData.readKeys count bytes = .ok (keys, rest)) ↔
      MiningHeader.skip (count * 32) bytes = .ok ((), rest) := by
  induction count generalizing bytes with
  | zero =>
      simp [ProofData.readKeys, cursor_pure_eq_ok, miningHeader_skip_eq_ok]
  | succ count inductionHypothesis =>
      have sum : (count + 1) * 32 = 32 + count * 32 := by omega
      rw [sum, miningHeader_skip_add]
      simp only [← exists_readKey_iff, ← inductionHypothesis,
        ProofData.readKeys, cursor_bind_eq_ok, cursor_pure_eq_ok]
      constructor
      · rintro ⟨_, key, middle, readKey, keys, _, readKeys, _, rfl⟩
        exact ⟨middle, ⟨key, readKey⟩, keys, readKeys⟩
      · rintro ⟨middle, ⟨key, readKey⟩, keys, readKeys⟩
        exact ⟨_, key, middle, readKey, keys, rest, readKeys, rfl, rfl⟩

theorem length_of_readKeys
    {count : Nat}
    {bytes rest : List UInt8}
    {keys : List ZanoCurveKey}
    (read : ProofData.readKeys count bytes = .ok (keys, rest)) :
    keys.length = count := by
  induction count generalizing bytes rest keys with
  | zero =>
      obtain ⟨rfl, _⟩ := cursor_pure_eq_ok.mp read
      rfl
  | succ count inductionHypothesis =>
      simp only [ProofData.readKeys, cursor_bind_eq_ok,
        cursor_pure_eq_ok] at read
      obtain ⟨key, middle, _, others, _, readOthers, rfl, _⟩ := read
      rw [List.length_cons, inductionHypothesis readOthers]

/-- A vector of keys is read wherever it can be skipped, with its length. -/
theorem skipKeys_eq_ok
    {maximum count : Nat}
    {bytes rest : List UInt8} :
    skipKeys maximum bytes = .ok (count, rest) ↔
      ∃ keys,
        ProofData.readKeyVector maximum bytes = .ok (keys, rest) ∧
          keys.length = count := by
  unfold skipKeys ProofData.readKeyVector
  simp only [cursor_bind_eq_ok, cursor_guard_eq_ok, cursor_pure_eq_ok,
    proofData_readVarint_iff]
  constructor
  · rintro ⟨_, middle, counted, bounded, _, _, skipped, rfl, rfl⟩
    obtain ⟨keys, read⟩ := exists_readKeys_iff.mpr skipped
    exact ⟨keys, ⟨_, middle, counted, bounded, read⟩, length_of_readKeys read⟩
  · rintro ⟨keys, ⟨found, middle, counted, bounded, read⟩, rfl⟩
    obtain rfl := length_of_readKeys read
    exact ⟨_, middle, counted, bounded, (), rest,
      exists_readKeys_iff.mp ⟨keys, read⟩, rfl, rfl⟩

end Vectors

section Range

theorem le_of_skipKeys
    {maximum count : Nat}
    {bytes rest : List UInt8}
    (read : skipKeys maximum bytes = .ok (count, rest)) :
    count ≤ maximum := by
  unfold skipKeys at read
  obtain ⟨_, middle, _, read⟩ := cursor_bind_eq_ok.mp read
  obtain ⟨bounded, read⟩ := cursor_guard_eq_ok.mp read
  obtain ⟨_, _, _, read⟩ := cursor_bind_eq_ok.mp read
  obtain ⟨rfl, _⟩ := cursor_pure_eq_ok.mp read
  omega

/-- The number of rounds of a range proof. -/
def rangeProofRounds (outputs : Nat) : Nat :=
  6 + Nat.clog 2 outputs

/-- A range proof that was skipped with consistent counts is parsed. -/
theorem rangeProofFields_of_skipRangeVectors
    {bytes : List UInt8}
    {left right outputs y0s y1s : Nat}
    (read :
      skipRangeVectors bytes = .ok ((left, right, outputs, y0s, y1s), []))
    (consistent : ConsistentCounts (left, right, outputs, y0s, y1s)) :
    2 ≤ outputs ∧ outputs ≤ 32 ∧
      ∃ parsed,
        rangeProofFields outputs bytes = .ok (parsed, []) ∧
          parsed.bpp.left.length = rangeProofRounds outputs ∧
          parsed.bpp.right.length = rangeProofRounds outputs := by
  unfold skipRangeVectors at read
  obtain ⟨_, bytes1, leftRead, read⟩ := cursor_bind_eq_ok.mp read
  obtain ⟨_, bytes2, rightRead, read⟩ := cursor_bind_eq_ok.mp read
  obtain ⟨_, bytes3, points, read⟩ := cursor_bind_eq_ok.mp read
  obtain ⟨_, bytes4, outputsRead, read⟩ := cursor_bind_eq_ok.mp read
  obtain ⟨_, bytes5, y0sRead, read⟩ := cursor_bind_eq_ok.mp read
  obtain ⟨_, bytes6, y1sRead, read⟩ := cursor_bind_eq_ok.mp read
  obtain ⟨_, bytes7, scalar, read⟩ := cursor_bind_eq_ok.mp read
  obtain ⟨shape, rfl⟩ := cursor_pure_eq_ok.mp read
  cases shape
  have bounded := le_of_skipKeys outputsRead
  simp only [ConsistentCounts, capacityDoublings_eq_clog] at consistent
  push Not at consistent
  obtain ⟨several, y0sCount, y1sCount, leftRounds, rightRounds⟩ := consistent
  obtain ⟨leftKeys, leftParsed, leftLength⟩ :=
    @skipKeys_eq_ok (kBppLog2N + 5) _ _ _ |>.mp leftRead
  obtain ⟨rightKeys, rightParsed, rightLength⟩ :=
    @skipKeys_eq_ok (kBppLog2N + 5) _ _ _ |>.mp rightRead
  obtain ⟨commitments, commitmentsParsed, commitmentsLength⟩ :=
    @skipKeys_eq_ok kCurrentMinerMaxOutputs _ _ _ |>.mp outputsRead
  obtain ⟨y0sKeys, y0sParsed, y0sLength⟩ :=
    @skipKeys_eq_ok kCurrentMinerMaxOutputs _ _ _ |>.mp y0sRead
  obtain ⟨y1sKeys, y1sParsed, y1sLength⟩ :=
    @skipKeys_eq_ok kCurrentMinerMaxOutputs _ _ _ |>.mp y1sRead
  obtain ⟨c, cParsed⟩ := exists_readKey_iff.mpr scalar
  obtain ⟨a0, _, a0Read, a, _, aRead, b, _, bRead, r, _, rRead, s, _, sRead,
    delta, deltaRead⟩ := sixKeys_iff.mpr points
  have rounds :
      ¬ (leftKeys.length ≠ kBppLog2N + ceilLog2 outputs ∨
        rightKeys.length ≠ kBppLog2N + ceilLog2 outputs) := by
    rw [ceilLog2_eq_clog, kBppLog2N]
    omega
  have counts :
      ¬ (commitments.length ≠ outputs ∨ y0sKeys.length ≠ outputs ∨
        y1sKeys.length ≠ outputs ∨ ([] : List UInt8) ≠ []) := by
    simp only [ne_eq, not_true_eq_false, or_false]
    omega
  refine ⟨by omega, bounded, ?_⟩
  unfold rangeProofFields
  rw [cursor_bind_of_ok leftParsed, cursor_bind_of_ok rightParsed,
    if_neg rounds, cursor_bind_of_ok a0Read, cursor_bind_of_ok aRead,
    cursor_bind_of_ok bRead, cursor_bind_of_ok rRead, cursor_bind_of_ok sRead,
    cursor_bind_of_ok deltaRead, cursor_bind_of_ok commitmentsParsed,
    cursor_bind_of_ok y0sParsed, cursor_bind_of_ok y1sParsed,
    cursor_bind_of_ok cParsed, cursor_get_bind, if_neg counts]
  exact ⟨_, rfl, by simp only [rangeProofRounds]; omega,
    by simp only [rangeProofRounds]; omega⟩

/-- A range proof that is parsed is skipped with the counts it is parsed for. -/
theorem skipRangeVectors_of_rangeProofFields
    {bytes rest : List UInt8}
    {outputs : Nat}
    {parsed : ParsedRangeProof}
    (read : rangeProofFields outputs bytes = .ok (parsed, rest)) :
    ∃ left right,
      skipRangeVectors bytes =
        .ok ((left, right, outputs, outputs, outputs), rest) := by
  unfold rangeProofFields at read
  simp only [cursor_bind_eq_ok, cursor_guard_eq_ok] at read
  obtain ⟨leftKeys, _, leftParsed, rightKeys, _, rightParsed, _, a0, _, a0Read,
    a, _, aRead, b, _, bRead, r, _, rRead, s, _, sRead, delta, bytes3,
    deltaRead, commitments, _, commitmentsParsed, y0sKeys, _, y0sParsed,
    y1sKeys, _, y1sParsed, c, bytes7, cParsed, _, _, state, counts, read⟩ :=
    read
  cases state
  obtain ⟨_, rfl⟩ := cursor_pure_eq_ok.mp read
  push Not at counts
  obtain ⟨commitmentsCount, y0sCount, y1sCount, _⟩ := counts
  have points :=
    sixKeys_iff.mp ⟨a0, _, a0Read, a, _, aRead, b, _, bRead, r, _, rRead, s, _,
      sRead, delta, deltaRead⟩
  refine ⟨leftKeys.length, rightKeys.length, ?_⟩
  have leftRead : skipKeys 11 _ = .ok (leftKeys.length, _) :=
    skipKeys_eq_ok.mpr ⟨leftKeys, leftParsed, rfl⟩
  have rightRead : skipKeys 11 _ = .ok (rightKeys.length, _) :=
    skipKeys_eq_ok.mpr ⟨rightKeys, rightParsed, rfl⟩
  have outputsRead : skipKeys 32 _ = .ok (outputs, _) :=
    skipKeys_eq_ok.mpr ⟨commitments, commitmentsParsed, commitmentsCount⟩
  have y0sRead : skipKeys 32 _ = .ok (outputs, _) :=
    skipKeys_eq_ok.mpr ⟨y0sKeys, y0sParsed, y0sCount⟩
  have y1sRead : skipKeys 32 _ = .ok (outputs, _) :=
    skipKeys_eq_ok.mpr ⟨y1sKeys, y1sParsed, y1sCount⟩
  unfold skipRangeVectors
  rw [cursor_bind_of_ok leftRead, cursor_bind_of_ok rightRead,
    cursor_bind_of_ok points, cursor_bind_of_ok outputsRead,
    cursor_bind_of_ok y0sRead, cursor_bind_of_ok y1sRead,
    cursor_bind_of_ok (exists_readKey_iff.mp ⟨c, cParsed⟩)]
  rfl

/-- A skipped range proof is parsed for its own number of outputs only. -/
theorem parseCurrentRangeProof_iff
    {bytes : List UInt8}
    {left right outputs y0s y1s : Nat}
    (read :
      skipRangeVectors bytes = .ok ((left, right, outputs, y0s, y1s), []))
    (consistent : ConsistentCounts (left, right, outputs, y0s, y1s))
    (count : Nat) :
    (∃ parsed, parseCurrentRangeProof bytes count = .ok parsed) ↔
      count = outputs := by
  constructor
  · rintro ⟨parsed, accepted⟩
    unfold parseCurrentRangeProof at accepted
    split_ifs at accepted
    obtain ⟨rest, fields⟩ := cursor_run_eq_ok.mp accepted
    obtain ⟨_, _, again⟩ := skipRangeVectors_of_rangeProofFields fields
    rw [read] at again
    cases again
    rfl
  · rintro rfl
    obtain ⟨several, bounded, parsed, fields, _⟩ :=
      rangeProofFields_of_skipRangeVectors read consistent
    have inRange :
        ¬ (count < kCurrentMinerMinOutputs ∨
          count > kCurrentMinerMaxOutputs) := by
      simp only [kCurrentMinerMinOutputs, kCurrentMinerMaxOutputs]
      omega
    unfold parseCurrentRangeProof
    rw [if_neg inRange]
    exact ⟨parsed, cursor_run_eq_ok.mpr ⟨[], fields⟩⟩

end Range

section Slices

/-- The offset behind the prefix of the miner transaction. -/
def minerSuffixOffset (work : MiningHeaderWork) : Nat :=
  work.blockHeader.serializedSize + work.minerTxPrefix.serializedSize

/-- The offset of the tag of the balance proof, counted backwards. -/
def balanceTagOffset (work : MiningHeaderWork) : Nat :=
  work.txHashes.serializedOffset - kBalanceProofSerializedSize

/-- The verifiers of a block's proofs see what the forward parse saw. -/
structure ProofSlices
    (backend : Backend)
    (proposal : P2pMiningContextProposal)
    (work : MiningHeaderWork)
    (range balance : List UInt8)
    (outputs : Nat) :
    Prop where
  /-- The forward parse reads the tag 47 behind three counts. -/
  counts :
    (proposal.blockTemplateBlob.drop (minerSuffixOffset work)).take 4 =
      [0, 0, 2, kRangeProofTag]
  /-- It consumes the range proof up to the tag 48. -/
  forward :
    ∃ left right y0s y1s,
      skipRangeVectors
          (proposal.blockTemplateBlob.drop (minerSuffixOffset work + 4)) =
        .ok ((left, right, outputs, y0s, y1s),
          kBalanceProofTag :: (balance ++
            proposal.blockTemplateBlob.drop work.txHashes.serializedOffset))
  consumed :
    proposal.blockTemplateBlob.drop (minerSuffixOffset work + 4) =
      range ++ kBalanceProofTag :: (balance ++
        proposal.blockTemplateBlob.drop work.txHashes.serializedOffset)
  skipped : balance.length = kBalanceProofPayloadSize
  /-- The slices lie inside the blob and next to each other. -/
  rangeEnds :
    minerSuffixOffset work + 4 + range.length = balanceTagOffset work
  balanceEnds :
    balanceTagOffset work + 1 + kBalanceProofPayloadSize =
      work.txHashes.serializedOffset
  inside : work.txHashes.serializedOffset ≤ proposal.blockTemplateBlob.length
  payload : currentRangeProofPayload proposal work = .ok range
  /-- What a verifier of balance proofs is asked. -/
  balanceChecked :
    ∀ proofs check,
      checkedHeaderWork backend proposal check = .ok (some work) →
        balanceProofStatus backend proofs proposal check =
          (do
            let inputs ← parseProofInputs work.minerTxPrefix.serialized
            if !proofs.verifyHf6MinerBalanceProof work.minerTxPrefix.hash
                proposal.blockReward inputs.txPublicKey
                inputs.amountCommitments balance then
              return .invalidBalanceProof
            else
              return .balanceVerifiedRangePending)
  parsedFor :
    ∀ count,
      (∃ parsed, parseCurrentRangeProof range count = .ok parsed) ↔
        count = outputs
  /-- The whole payload is consumed, with one round per doubling. -/
  rounds :
    ∃ parsed,
      rangeProofFields outputs range = .ok (parsed, []) ∧
        parsed.bpp.left.length = 6 + Nat.clog 2 outputs ∧
        parsed.bpp.right.length = 6 + Nat.clog 2 outputs

/-- Every accepted block is sliced as it was parsed. -/
theorem proofSlices_of_deriveMiningHeaderWork
    {backend : Backend}
    {proposal : P2pMiningContextProposal}
    {work : MiningHeaderWork}
    (derived :
      deriveMiningHeaderWork backend proposal.blockTemplateBlob = .ok work) :
    ∃ range balance outputs,
      ProofSlices backend proposal work range balance outputs := by
  obtain ⟨header, minerTxPrefix, proofs, trailer, layout⟩ :=
    deriveMiningHeaderWork_layout derived
  obtain ⟨range, balance, ⟨left, right, outputs, y0s, y1s⟩, proofLayout⟩ :=
    layout.proofLayout
  have suffix :
      minerSuffixOffset work = (header ++ minerTxPrefix).length := by
    rw [minerSuffixOffset, layout.headerSize, layout.prefixSize,
      List.length_append]
  have whole :
      proposal.blockTemplateBlob =
        (header ++ minerTxPrefix) ++ ([0, 0, 2, 47] ++
          (range ++ 48 :: (balance ++ trailer))) := by
    rw [layout.whole, proofLayout.whole]
    simp
  have offset :
      work.txHashes.serializedOffset =
        minerSuffixOffset work + 4 + range.length + 97 := by
    rw [layout.trailerOffset, suffix, proofLayout.whole]
    simp only [List.length_append, List.length_cons, List.length_nil,
      proofLayout.balanceLength]
    omega
  have tag :
      balanceTagOffset work = minerSuffixOffset work + 4 + range.length := by
    rw [balanceTagOffset, kBalanceProofSerializedSize,
      kBalanceProofPayloadSize, offset]
    omega
  have behindPrefix :
      proposal.blockTemplateBlob.drop (minerSuffixOffset work) =
        [0, 0, 2, 47] ++ (range ++ 48 :: (balance ++ trailer)) := by
    rw [whole, suffix, List.drop_left]
  have behindCounts :
      proposal.blockTemplateBlob.drop (minerSuffixOffset work + 4) =
        range ++ 48 :: (balance ++ trailer) := by
    rw [← List.drop_drop, behindPrefix]
    rfl
  have behindRange :
      proposal.blockTemplateBlob.drop (balanceTagOffset work) =
        48 :: (balance ++ trailer) := by
    rw [tag, ← List.drop_drop, behindCounts, List.drop_left]
  have behindBalanceTag :
      proposal.blockTemplateBlob.drop (balanceTagOffset work + 1) =
        balance ++ trailer := by
    rw [← List.drop_drop, behindRange]
    rfl
  have behindBalance :
      proposal.blockTemplateBlob.drop work.txHashes.serializedOffset =
        trailer := by
    rw [show work.txHashes.serializedOffset =
        balanceTagOffset work + 1 + balance.length by
      rw [offset, tag, proofLayout.balanceLength], ← List.drop_drop,
      behindBalanceTag, List.drop_left]
  have tagged :
      proposal.blockTemplateBlob[balanceTagOffset work]? =
        some kBalanceProofTag := by
    rw [← List.head?_drop, behindRange]
    rfl
  have inside :
      work.txHashes.serializedOffset ≤ proposal.blockTemplateBlob.length := by
    rw [offset, suffix, whole]
    simp only [List.length_append, List.length_cons, List.length_nil,
      proofLayout.balanceLength]
    omega
  have nonempty : range ≠ [] := by
    rintro rfl
    have none := proofLayout.rangeRead []
    cases none
  have balanceSlice :
      (proposal.blockTemplateBlob.drop (balanceTagOffset work + 1)).take
        kBalanceProofPayloadSize = balance := by
    rw [behindBalanceTag]
    exact List.take_left' proofLayout.balanceLength
  have alone := proofLayout.rangeRead []
  rw [List.append_nil] at alone
  obtain ⟨_, _, parsed, fields, leftRounds, rightRounds⟩ :=
    rangeProofFields_of_skipRangeVectors alone proofLayout.consistent
  refine ⟨range, balance, outputs, ?_⟩
  constructor
  case counts =>
    rw [behindPrefix]
    rfl
  case forward =>
    rw [behindCounts, behindBalance]
    exact ⟨left, right, y0s, y1s, proofLayout.rangeRead _⟩
  case consumed =>
    rw [behindCounts, behindBalance]
    rfl
  case skipped => exact proofLayout.balanceLength
  case rangeEnds => exact tag.symm
  case balanceEnds =>
    rw [offset, tag, kBalanceProofPayloadSize]
  case inside => exact inside
  case payload =>
    have long := List.length_pos_iff.mpr nonempty
    have offsets :
        ¬ (minerSuffixOffset work > proposal.blockTemplateBlob.length ∨
          work.txHashes.serializedOffset >
            proposal.blockTemplateBlob.length ∨
          work.txHashes.serializedOffset < kBalanceProofSerializedSize ∨
          minerSuffixOffset work + 4 > work.txHashes.serializedOffset) := by
      rw [kBalanceProofSerializedSize, kBalanceProofPayloadSize]
      omega
    have shape :
        ¬ (proposal.blockTemplateBlob.drop (minerSuffixOffset work)).take 4 ≠
          [0, 0, 2, kRangeProofTag] := by
      rw [behindPrefix]
      exact not_not.mpr rfl
    have follows :
        ¬ (balanceTagOffset work ≤ minerSuffixOffset work + 4 ∨
          proposal.blockTemplateBlob[balanceTagOffset work]? ≠
            some kBalanceProofTag) := by
      rw [tagged, tag]
      simp only [ne_eq, not_true_eq_false, or_false]
      omega
    refine (if_neg offsets).trans ((if_neg shape).trans
      ((if_neg follows).trans ?_))
    have slice :
        (proposal.blockTemplateBlob.drop (minerSuffixOffset work + 4)).take
            (balanceTagOffset work - (minerSuffixOffset work + 4)) =
          range := by
      rw [behindCounts, tag, Nat.add_sub_cancel_left, List.take_left]
    exact congrArg Except.ok slice
  case balanceChecked =>
    intro proofs check checked
    have offsets :
        ¬ (work.txHashes.serializedOffset < kBalanceProofSerializedSize ∨
          work.txHashes.serializedOffset >
            proposal.blockTemplateBlob.length) := by
      rw [kBalanceProofSerializedSize, kBalanceProofPayloadSize]
      omega
    rw [balanceTagOffset] at tagged balanceSlice
    unfold balanceProofStatus
    rw [checked]
    simp only [bind, Except.bind, if_neg offsets, tagged, balanceSlice,
      ne_eq, not_true_eq_false, if_false]
  case parsedFor =>
    exact parseCurrentRangeProof_iff alone proofLayout.consistent
  case rounds => exact ⟨parsed, fields, leftRounds, rightRounds⟩

/-- A proposal of the sample block. -/
def sampleSlicedProposal : P2pMiningContextProposal where
  blockTemplateBlob := sampleBlock 3

/-- The sample block has a range proof for two outputs. -/
theorem proofSlices_of_sampleBlock :
    ∃ range balance outputs,
      ProofSlices spellingBackend sampleSlicedProposal sampleWork range balance
        outputs := by
  have derived :
      deriveMiningHeaderWork spellingBackend (sampleBlock 3) =
        .ok sampleWork := by
    decide +kernel
  exact @proofSlices_of_deriveMiningHeaderWork spellingBackend
    sampleSlicedProposal sampleWork derived

end Slices

end ZanoP2pool
