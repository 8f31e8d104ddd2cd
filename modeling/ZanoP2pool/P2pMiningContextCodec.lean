import ZanoP2pool.Foundation.Effect
import ZanoP2pool.P2pMiningContext
import ZanoP2pool.ShareBytes

namespace ZanoP2pool

open Foundation

/-!
# One encoding of each mining context

Proposals are read back from their encodings, and only encodings are accepted.
The two announced lengths cut the rest of a payload into two parts that leave
nothing out.
-/

variable {json : JsonBackend} {proposal : P2pMiningContextProposal}
  {bytes rest : List UInt8}

/-- A pair of lengths that passes the check cuts the remaining bytes in two. -/
theorem takeMiningContextComponents_eq_ok
    {blockBlobSize tgcSize : UInt32}
    {components : List UInt8 × List UInt8} :
    takeMiningContextComponents blockBlobSize tgcSize bytes =
        .ok (components, rest) ↔
      components.1.length = blockBlobSize.toNat ∧
      components.2.length = tgcSize.toNat ∧
      bytes = components.1 ++ components.2 ∧ rest = [] := by
  have summed :
      (blockBlobSize.toUInt64 + tgcSize.toUInt64).toNat =
        blockBlobSize.toNat + tgcSize.toNat := by
    have first := blockBlobSize.toNat_lt
    have second := tgcSize.toNat_lt
    rw [UInt64.toNat_add, UInt32.toNat_toUInt64, UInt32.toNat_toUInt64]
    omega
  unfold takeMiningContextComponents
  rw [cursor_get_bind, cursor_guard_eq_ok, summed]
  simp only [cursor_bind_eq_ok, takeBytes_eq_ok, cursor_pure_eq_ok, ne_eq,
    not_not]
  constructor
  · rintro ⟨total, blob, middle, ⟨blobLength, rfl⟩, text, last,
      ⟨textLength, rfl⟩, rfl, rfl⟩
    have ended : last = [] := by
      rw [List.length_append, List.length_append] at total
      exact List.length_eq_zero_iff.mp (by omega)
    exact ⟨blobLength, textLength, by simp [ended], ended⟩
  · rintro ⟨blobLength, textLength, rfl, rfl⟩
    refine ⟨by rw [List.length_append]; omega, components.1, components.2,
      ⟨blobLength, rfl⟩, components.2, [], ⟨textLength, by simp⟩, rfl, rfl⟩

/-- A serializable proposal is within the bounds of a payload. -/
theorem requireProposalSerializable_bounds
    (serializable : requireProposalSerializable json proposal = .ok ()) :
    proposal.version = kP2pMiningContextVersion1 ∧
      proposal.blockTemplateBlob.length + proposal.minerTxTgcJson.length +
        kP2pMiningContextFixedPayloadSize ≤ kP2pMaxPayloadSize := by
  unfold requireProposalSerializable at serializable
  obtain ⟨version, serializable⟩ := except_guard_eq_ok.mp serializable
  obtain ⟨_, serializable⟩ := except_guard_eq_ok.mp serializable
  obtain ⟨_, serializable⟩ := except_guard_eq_ok.mp serializable
  obtain ⟨_, serializable⟩ := except_seq_eq_ok.mp serializable
  obtain ⟨blob, serializable⟩ := except_guard_eq_ok.mp serializable
  obtain ⟨text, _⟩ := except_guard_eq_ok.mp serializable
  refine ⟨not_not.mp version, ?_⟩
  have room : kP2pMiningContextFixedPayloadSize ≤ kP2pMaxPayloadSize := by
    decide
  omega

theorem length_miningContextBytes
    (proposal : P2pMiningContextProposal) :
    (miningContextBytes proposal).length =
      kP2pMiningContextFixedPayloadSize +
        proposal.blockTemplateBlob.length +
        proposal.minerTxTgcJson.length := by
  simp only [miningContextBytes, miningContextFixedBytes, appendU64Be,
    hashBytes, difficultyBytes, appendU32Be, List.length_append,
    length_bigEndian, List.length_singleton,
    kP2pMiningContextFixedPayloadSize]

theorem serializeP2pMiningContextPayload_eq_ok :
    serializeP2pMiningContextPayload json proposal = .ok bytes ↔
      requireProposalSerializable json proposal = .ok () ∧
        bytes = miningContextBytes proposal := by
  unfold serializeP2pMiningContextPayload
  rw [except_seq_eq_ok]
  constructor
  · rintro ⟨serializable, written⟩
    obtain ⟨_, ⟨⟩⟩ := except_guard_eq_ok.mp written
    exact ⟨serializable, rfl⟩
  · rintro ⟨serializable, rfl⟩
    obtain ⟨_, bounded⟩ := requireProposalSerializable_bounds serializable
    refine ⟨serializable, except_guard_eq_ok.mpr ⟨?_, rfl⟩⟩
    rw [length_miningContextBytes]
    omega

/-- Reading accepts exactly the encodings of version 1 with fitting lengths. -/
theorem readP2pMiningContext_eq_ok
    (small : bytes.length ≤ kP2pMaxPayloadSize) :
    readP2pMiningContext bytes = .ok (proposal, rest) ↔
      proposal.version = kP2pMiningContextVersion1 ∧
        bytes = miningContextBytes proposal ∧ rest = [] := by
  constructor
  · intro read
    unfold readP2pMiningContext at read
    obtain ⟨version, bytes1, taken, read1⟩ := cursor_bind_eq_ok.mp read
    obtain rfl := takeByte_eq_ok.mp taken
    obtain ⟨versioned, read2⟩ := cursor_guard_eq_ok.mp read1
    simp only [cursor_bind_eq_ok, takeBitVec256_eq_ok, takeBitVec128_eq_ok,
      takeUInt64_eq_ok, takeUInt32_eq_ok, takeMiningContextComponents_eq_ok,
      cursor_pure_eq_ok] at read2
    obtain ⟨zanoHeight, bytes2, rfl, prevHash, bytes3, rfl,
      networkDifficulty, bytes4, rfl, seed, bytes5, rfl,
      blockRewardWithoutFee, bytes6, rfl, blockReward, bytes7, rfl, txsFee,
      bytes8, rfl, blockBlobSize, bytes9, rfl, tgcSize, bytes10, rfl,
      components, bytes11, ⟨blobLength, textLength, rfl, rfl⟩, rfl, rfl⟩ :=
        read2
    refine ⟨not_not.mp versioned, ?_, rfl⟩
    simp only [miningContextBytes, miningContextFixedBytes]
    rw [blobLength, textLength, UInt32.ofNat_toNat, UInt32.ofNat_toNat]
    simp [appendU64Be, hashBytes, difficultyBytes, appendU32Be]
  · rintro ⟨versioned, rfl, rfl⟩
    have sized := length_miningContextBytes proposal
    have blobSize :=
      @toNat_payloadSize proposal.blockTemplateBlob (by omega)
    have textSize :=
      @toNat_payloadSize proposal.minerTxTgcJson (by omega)
    have shape :
        miningContextBytes proposal =
          proposal.version ::
          (bigEndian 8 proposal.zanoHeight.toNat ++
          (bigEndian 32 proposal.prevHash.toNat ++
          (bigEndian 16 proposal.networkDifficulty.toNat ++
          (bigEndian 32 proposal.seed.toNat ++
          (bigEndian 8 proposal.blockRewardWithoutFee.toNat ++
          (bigEndian 8 proposal.blockReward.toNat ++
          (bigEndian 8 proposal.txsFee.toNat ++
          (bigEndian 4
            (UInt32.ofNat proposal.blockTemplateBlob.length).toNat ++
          (bigEndian 4 (UInt32.ofNat proposal.minerTxTgcJson.length).toNat ++
            (proposal.blockTemplateBlob ++
              proposal.minerTxTgcJson)))))))))) := by
      simp [miningContextBytes, miningContextFixedBytes, appendU64Be,
        hashBytes, difficultyBytes, appendU32Be]
    unfold readP2pMiningContext
    rw [shape, cursor_bind_of_ok (takeByte_eq_ok.mpr rfl),
      if_neg (not_not_intro versioned),
      cursor_bind_of_ok (takeUInt64_eq_ok.mpr rfl),
      cursor_bind_of_ok (takeBitVec256_eq_ok.mpr rfl),
      cursor_bind_of_ok (takeBitVec128_eq_ok.mpr rfl),
      cursor_bind_of_ok (takeBitVec256_eq_ok.mpr rfl),
      cursor_bind_of_ok (takeUInt64_eq_ok.mpr rfl),
      cursor_bind_of_ok (takeUInt64_eq_ok.mpr rfl),
      cursor_bind_of_ok (takeUInt64_eq_ok.mpr rfl),
      cursor_bind_of_ok (takeUInt32_eq_ok.mpr rfl),
      cursor_bind_of_ok (takeUInt32_eq_ok.mpr rfl),
      cursor_bind_of_ok (takeMiningContextComponents_eq_ok.mpr
        (⟨blobSize.symm, textSize.symm, rfl, rfl⟩ :
          (proposal.blockTemplateBlob, proposal.minerTxTgcJson).1.length =
            _ ∧ _))]
    rfl

/-- The parser accepts exactly the encodings of serializable proposals. -/
theorem deserializeP2pMiningContextPayload_eq_ok :
    deserializeP2pMiningContextPayload json bytes = .ok proposal ↔
      serializeP2pMiningContextPayload json proposal = .ok bytes := by
  rw [serializeP2pMiningContextPayload_eq_ok]
  unfold deserializeP2pMiningContextPayload
  simp only [throw, throwThe, MonadExceptOf.throw]
  rw [except_guard_eq_ok]
  constructor
  · rintro ⟨sized, parsed⟩
    obtain ⟨⟨found, rest⟩, read, checked⟩ := except_bind_eq_ok.mp parsed
    obtain ⟨serializable, ⟨⟩⟩ := except_seq_eq_ok.mp checked
    obtain ⟨_, rfl, _⟩ :=
      (readP2pMiningContext_eq_ok (by omega)).mp read
    exact ⟨serializable, rfl⟩
  · rintro ⟨serializable, rfl⟩
    obtain ⟨versioned, bounded⟩ :=
      requireProposalSerializable_bounds serializable
    have sized := length_miningContextBytes proposal
    refine ⟨by omega, except_bind_eq_ok.mpr ⟨(proposal, []), ?_, ?_⟩⟩
    · exact (readP2pMiningContext_eq_ok (by omega)).mpr
        ⟨versioned, rfl, rfl⟩
    · exact except_seq_eq_ok.mpr ⟨serializable, rfl⟩

/--
Encodings are within the size of a payload and read back, accepted payloads are
the encodings of what was read and hash to its identity, and two announced
lengths that pass the check cut the rest of a payload without overlap or gap.
-/
theorem miningContextPayload_canonical
    (backend : Backend)
    (json : JsonBackend) :
    (∀ proposal payload,
      serializeP2pMiningContextPayload json proposal = .ok payload →
        121 ≤ payload.length ∧ payload.length ≤ 65536 ∧
          deserializeP2pMiningContextPayload json payload = .ok proposal) ∧
    (∀ payload proposal,
      deserializeP2pMiningContextPayload json payload = .ok proposal →
        serializeP2pMiningContextPayload json proposal = .ok payload ∧
          p2pMiningContextId backend json proposal =
            .ok (backend.cnFastHash payload)) ∧
    (∀ blockBlobSize tgcSize remaining components rest,
      takeMiningContextComponents blockBlobSize tgcSize remaining =
          .ok (components, rest) →
        components.1 = remaining.take blockBlobSize.toNat ∧
        components.2 = remaining.drop blockBlobSize.toNat ∧
        blockBlobSize.toNat + tgcSize.toNat = remaining.length ∧
        components.2.length = tgcSize.toNat ∧ rest = []) := by
  refine ⟨?_, ?_, ?_⟩
  · intro proposal payload serialized
    have parsed := deserializeP2pMiningContextPayload_eq_ok.mpr serialized
    obtain ⟨serializable, rfl⟩ :=
      serializeP2pMiningContextPayload_eq_ok.mp serialized
    obtain ⟨_, bounded⟩ := requireProposalSerializable_bounds serializable
    have sized := length_miningContextBytes proposal
    have limits :
        kP2pMiningContextFixedPayloadSize = 121 ∧
          kP2pMaxPayloadSize = 65536 := by decide
    exact ⟨by omega, by omega, parsed⟩
  · intro payload proposal parsed
    have serialized := deserializeP2pMiningContextPayload_eq_ok.mp parsed
    refine ⟨serialized, ?_⟩
    unfold p2pMiningContextId
    rw [serialized]
    rfl
  · intro blockBlobSize tgcSize remaining components rest taken
    obtain ⟨blobLength, textLength, rfl, ended⟩ :=
      takeMiningContextComponents_eq_ok.mp taken
    rw [← blobLength]
    refine ⟨List.take_left.symm, List.drop_left.symm, ?_, textLength, ended⟩
    rw [List.length_append, textLength]

/-- The bytes of a text in front of its transaction key. -/
def sampleTgcOpening : List UInt8 :=
  [0x7b, 0x22, 0x74, 0x78, 0x5f, 0x6b, 0x65, 0x79, 0x22, 0x3a, 0x22]

/--
A reader of objects whose only field is a transaction key in hexadecimal digits,
with blanks behind the object.
-/
def sampleTgcJson : JsonBackend := fun text length =>
  let body := text.take length.toNat
  let behind := body.drop sampleTgcOpening.length
  let key := behind.takeWhile (· ≠ 0x22)
  let closing := behind.dropWhile (· ≠ 0x22)
  if sampleTgcOpening.isPrefixOf body ∧ key.all isHexDigit ∧
      closing.take 2 = [0x22, 0x7d] ∧
      (closing.drop 2).all (· = 0x20) then
    some fun name => if name = "tx_key" then some key else none
  else
    none

/-- The object whose transaction key is one byte, with blanks behind it. -/
def sampleTgcText (blanks : Nat) : List UInt8 :=
  sampleTgcOpening ++ [0x30, 0x31] ++ [0x22, 0x7d] ++
    List.replicate blanks 0x20

@[simp]
theorem length_sampleTgcText
    (blanks : Nat) :
    (sampleTgcText blanks).length = 15 + blanks := by
  simp [sampleTgcText, sampleTgcOpening]
  omega

/-- Blanks behind the object do not matter, and anything else is refused. -/
theorem requireValidTgcJson_sampleTgcText
    {blanks : Nat}
    (few : blanks < 2 ^ 31) :
    requireValidTgcJson sampleTgcJson (sampleTgcText blanks) = .ok () := by
  have reads :
      sampleTgcJson (sampleTgcText blanks)
          (BitVec.ofNat 32 (sampleTgcText blanks).length) =
        some fun name =>
          if name = "tx_key" then some [0x30, 0x31] else none := by
    have whole :
        (sampleTgcText blanks).take
            (BitVec.ofNat 32 (sampleTgcText blanks).length).toNat =
          sampleTgcText blanks := by
      rw [BitVec.toNat_ofNat, Nat.mod_eq_of_lt (by simp; omega),
        List.take_length]
    unfold sampleTgcJson
    rw [whole]
    simp [sampleTgcText, sampleTgcOpening, isHexDigit]
  unfold requireValidTgcJson
  rw [if_neg (by simp [sampleTgcText]), reads]
  rfl

/-- A proposal with a template of three bytes and a text of fifteen. -/
def sampleProposal : P2pMiningContextProposal where
  zanoHeight := 7
  prevHash := 5
  networkDifficulty := 100
  blockTemplateBlob := [1, 2, 3]
  minerTxTgcJson := sampleTgcText 0

/-- The sample proposal is read back from its encoding. -/
theorem sampleProposal_roundTrips :
    ∃ payload,
      serializeP2pMiningContextPayload sampleTgcJson sampleProposal =
          .ok payload ∧
        deserializeP2pMiningContextPayload sampleTgcJson payload =
          .ok sampleProposal := by
  have serialized :=
    serializeP2pMiningContextPayload_eq_ok.mpr
      ⟨(by decide +kernel :
        requireProposalSerializable sampleTgcJson sampleProposal = .ok ()),
        rfl⟩
  have law := miningContextPayload_canonical countingBackend sampleTgcJson
  exact ⟨_, serialized, (law.1 _ _ serialized).2.2⟩

end ZanoP2pool
