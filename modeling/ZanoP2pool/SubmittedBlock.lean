import ZanoP2pool.BlockSubmitter
import ZanoP2pool.Foundation.TreeMap
import ZanoP2pool.MiningHeaderCommitment

namespace ZanoP2pool

open Foundation

/-!
# The submitted block is the block that was mined

Writing a nonce changes eight bytes that the derivation of the mining header
skips, so a blob and its patched form derive the same work or fail alike.
-/

section Hex

/-- The two digits of a byte are read back as its halves. -/
private theorem hexNibble_hexDigit (byte : UInt8) :
    hexNibble (hexDigit (byte >>> 4)) = .ok (byte >>> 4) ∧
      hexNibble (hexDigit (byte &&& 0x0f)) = .ok (byte &&& 0x0f) ∧
      ((byte >>> 4) <<< 4 ||| (byte &&& 0x0f)) = byte ∧
      hexDigit (byte &&& 0x0f) ≠ 0x78 ∧ hexDigit (byte &&& 0x0f) ≠ 0x58 := by
  have every :
      ∀ value : Fin 256,
        let byte := UInt8.ofNat value.val
        hexNibble (hexDigit (byte >>> 4)) = .ok (byte >>> 4) ∧
          hexNibble (hexDigit (byte &&& 0x0f)) = .ok (byte &&& 0x0f) ∧
          ((byte >>> 4) <<< 4 ||| (byte &&& 0x0f)) = byte ∧
          hexDigit (byte &&& 0x0f) ≠ 0x78 ∧
          hexDigit (byte &&& 0x0f) ≠ 0x58 := by
    decide +kernel
  have here := every ⟨byte.toNat, byte.toNat_lt⟩
  simpa only [UInt8.ofNat_toNat] using here

theorem hexPairs_bytesToHex (bytes : List UInt8) :
    hexPairs (bytesToHex bytes) = .ok bytes := by
  induction bytes with
  | nil => rfl
  | cons byte rest inductionHypothesis =>
      obtain ⟨high, low, whole, _⟩ := hexNibble_hexDigit byte
      have shape :
          bytesToHex (byte :: rest) =
            hexDigit (byte >>> 4) :: hexDigit (byte &&& 0x0f) ::
              bytesToHex rest := rfl
      rw [shape, hexPairs, high, low, inductionHypothesis]
      simp only [bind, Except.bind, whole]
      rfl

theorem even_length_bytesToHex (bytes : List UInt8) :
    (bytesToHex bytes).length % 2 = 0 := by
  induction bytes with
  | nil => rfl
  | cons byte rest inductionHypothesis =>
      have shape :
          (bytesToHex (byte :: rest)).length =
            (bytesToHex rest).length + 2 := rfl
      rw [shape]
      omega

/-- Digits without a marker are read as they are. -/
theorem hexToBytes_unmarked
    {hex : List UInt8}
    (notLower : ∀ rest, hex ≠ 0x30 :: 0x78 :: rest)
    (notUpper : ∀ rest, hex ≠ 0x30 :: 0x58 :: rest)
    (even : hex.length % 2 = 0) :
    hexToBytes hex = hexPairs hex := by
  unfold hexToBytes
  dsimp only
  split
  · rename_i rest
    exact absurd rfl (notLower rest)
  · rename_i rest
    exact absurd rfl (notUpper rest)
  · rw [if_neg (by simp [even])]

/-- Bytes are read back from their digits. -/
theorem hexToBytes_bytesToHex (bytes : List UInt8) :
    hexToBytes (bytesToHex bytes) = .ok bytes := by
  have marker :
      ∀ letter, letter = 0x78 ∨ letter = 0x58 →
        ∀ rest, bytesToHex bytes ≠ 0x30 :: letter :: rest := by
    intro letter isMarker rest same
    cases bytes with
    | nil => cases same
    | cons byte later =>
        obtain ⟨_, _, _, notLower, notUpper⟩ := hexNibble_hexDigit byte
        have second : hexDigit (byte &&& 0x0f) = letter :=
          (List.cons.inj (List.cons.inj same).2).1
        rcases isMarker with rfl | rfl
        · exact notLower second
        · exact notUpper second
  rw [hexToBytes_unmarked (marker _ (.inl rfl)) (marker _ (.inr rfl))
    (even_length_bytesToHex bytes), hexPairs_bytesToHex]

end Hex

section Nonce

variable {version : UInt8} {nonce other tail : List UInt8}
variable (length : nonce.length = 8) (otherLength : other.length = 8)

include length otherLength

/-- Behind the nonce two blocks that differ in it are equal. -/
theorem drop_nonce
    {offset : Nat}
    (behind : 9 ≤ offset) :
    (version :: (nonce ++ tail)).drop offset =
      (version :: (other ++ tail)).drop offset := by
  obtain ⟨further, rfl⟩ := Nat.exists_eq_add_of_le behind
  rw [← List.drop_drop, ← List.drop_drop, List.drop_succ_cons,
    List.drop_succ_cons, List.drop_left' length, List.drop_left' otherLength]

/-- The parsed header forgets the nonce, or both fail alike. -/
theorem parsePowBlockHeader_nonce :
    parsePowBlockHeader (version :: (nonce ++ tail)) =
      parsePowBlockHeader (version :: (other ++ tail)) := by
  have sameLength :
      (version :: (nonce ++ tail)).length =
        (version :: (other ++ tail)).length := by
    simp [length, otherLength]
  unfold parsePowBlockHeader
  rw [blockHeaderFields_nonce length otherLength]
  cases blockHeaderFields (version :: (other ++ tail)) with
  | error thrown => rfl
  | ok read =>
      simp only [bind, Except.bind, sameLength, List.length_take]
      split
      · rfl
      · rename_i long
        rw [(zeroNonce_eq_iff ?_ ?_).mpr ⟨?_, ?_⟩]
        · rw [List.length_take, sameLength]
          omega
        · rw [List.length_take]
          omega
        · rw [List.length_take, List.length_take, sameLength]
        · intro index place
          rw [List.getElem?_take, List.getElem?_take]
          rcases place with rfl | behind
          · simp
          · obtain ⟨further, rfl⟩ := Nat.exists_eq_add_of_le behind
            rw [getElem?_header _ length, getElem?_header _ otherLength]

/-- The trailer lies behind the nonce. -/
theorem parseHf6TxHashTrailer_nonce
    {offset : Nat}
    (behind : 9 ≤ offset) :
    parseHf6TxHashTrailer (version :: (nonce ++ tail)) offset =
      parseHf6TxHashTrailer (version :: (other ++ tail)) offset := by
  have sameLength :
      (version :: (nonce ++ tail)).length =
        (version :: (other ++ tail)).length := by
    simp [length, otherLength]
  unfold parseHf6TxHashTrailer
  rw [sameLength, @drop_nonce version nonce other tail length otherLength _
    behind]

/-- The derived work does not depend on the nonce. -/
theorem deriveMiningHeaderWork_nonce
    (backend : Backend) :
    deriveMiningHeaderWork backend (version :: (nonce ++ tail)) =
      deriveMiningHeaderWork backend (version :: (other ++ tail)) := by
  unfold deriveMiningHeaderWork
  rw [@parsePowBlockHeader_nonce version nonce other tail length otherLength]
  cases parsed : parsePowBlockHeader (version :: (other ++ tail)) with
  | error thrown => rfl
  | ok header =>
      have behind : 9 ≤ header.serializedSize := by
        obtain ⟨_, long, _⟩ := parsePowBlockHeader_eq_ok parsed
        rw [List.length_take] at long
        omega
      have trailers :
          ∀ further,
            parseHf6TxHashTrailer (version :: (nonce ++ tail))
                (header.serializedSize + further) =
              parseHf6TxHashTrailer (version :: (other ++ tail))
                (header.serializedSize + further) := fun further =>
        parseHf6TxHashTrailer_nonce length otherLength (by omega)
      simp only [bind, Except.bind, trailers,
        drop_nonce length otherLength behind]

end Nonce

/-- Writing a nonce keeps the length and everything around the nonce. -/
theorem writeNonce_shape
    {bytes : List UInt8}
    (long : 9 ≤ bytes.length)
    (nonce : UInt64) :
    ∃ version before tail,
      before.length = 8 ∧ bytes = version :: (before ++ tail) ∧
        writeNonce bytes nonce =
          version :: (littleEndian 8 nonce.toNat ++ tail) := by
  obtain ⟨version, before, tail, length, rfl, _⟩ := header_shape long
  refine ⟨version, before, tail, length, rfl, ?_⟩
  simp only [writeNonce, List.take_succ_cons, List.take_zero,
    List.drop_succ_cons, List.drop_left' length]
  rfl

/-- A patched block: what changed, and that the mined header did not. -/
structure Patches
    (backend : Backend)
    (bytes patched : List UInt8)
    (nonce : UInt64) :
    Prop where
  derived :
    deriveMiningHeaderWork backend patched =
      deriveMiningHeaderWork backend bytes
  length : patched.length = bytes.length
  outside :
    ∀ index, index = 0 ∨ 9 ≤ index → patched[index]? = bytes[index]?
  nonce : ofLittleEndian ((patched.drop 1).take 8) = nonce.toNat

theorem writeNonce_patches
    (backend : Backend)
    {bytes : List UInt8}
    (long : 9 ≤ bytes.length)
    (nonce : UInt64) :
    Patches backend bytes (writeNonce bytes nonce) nonce := by
  obtain ⟨version, before, tail, length, rfl, written⟩ :=
    writeNonce_shape long nonce
  have eight : (littleEndian 8 nonce.toNat).length = 8 := by simp
  rw [written]
  refine ⟨deriveMiningHeaderWork_nonce eight length backend, ?_, ?_, ?_⟩
  · simp [length]
  · rintro index (rfl | behind)
    · rfl
    · obtain ⟨further, rfl⟩ := Nat.exists_eq_add_of_le behind
      rw [getElem?_header _ eight, getElem?_header _ length]
  · rw [List.drop_succ_cons, List.drop_zero, List.take_left' eight]
    apply ofLittleEndian_littleEndian
    have bound := nonce.toNat_lt
    norm_num at bound ⊢
    exact bound

/-- A hexadecimal template is patched like its bytes. -/
theorem blockBlobWithNonce_eq
    {hex bytes : List UInt8}
    (decoded : hexToBytes hex = .ok bytes)
    (long : 9 ≤ bytes.length)
    (nonce : UInt64) :
    blockBlobWithNonce hex nonce = .ok (bytesToHex (writeNonce bytes nonce)) := by
  unfold blockBlobWithNonce
  rw [decoded]
  simp only [bind, Except.bind]
  rw [if_neg (by omega)]
  rfl

/-- A hexadecimal template from which a header hash is derived. -/
def DerivesHeader
    (backend : Backend)
    (miningHeaderHash : Hash256)
    (blockBlobHex : List UInt8) :
    Prop :=
  ∃ bytes work,
    hexToBytes blockBlobHex = .ok bytes ∧
      deriveMiningHeaderWork backend bytes = .ok work ∧
      work.headerHash = miningHeaderHash

/-- Templates are remembered under the header hash derived from them. -/
def SubmitterOp.Genuine (backend : Backend) : SubmitterOp → Prop
  | .rememberTemplate miningHeaderHash blockBlobHex =>
      DerivesHeader backend miningHeaderHash blockBlobHex
  | _ => True

namespace BlockCandidateSubmitter

/-- Every template and every candidate carries the header it is kept under. -/
structure Faithful
    (backend : Backend)
    (submitter : BlockCandidateSubmitter) :
    Prop where
  templates :
    ∀ ⦃hash : Hash256⦄ ⦃hex : List UInt8⦄,
      submitter.templates[hash]? = some hex → DerivesHeader backend hash hex
  queue :
    ∀ queued ∈ submitter.queue,
      DerivesHeader backend queued.candidate.miningHeaderHash
        queued.blockBlobHex
  inFlight :
    ∀ queued, submitter.inFlight = some queued →
      DerivesHeader backend queued.candidate.miningHeaderHash
        queued.blockBlobHex

/-- Eviction only drops templates. -/
theorem getElem?_evict
    {maxTemplates : Nat}
    {current hash : Hash256}
    {hex : List UInt8}
    (budget : Nat)
    (templates : Std.ExtTreeMap Hash256 (List UInt8))
    (order : List Hash256)
    (found :
      (evict maxTemplates current budget templates order).1[hash]? =
        some hex) :
    templates[hash]? = some hex := by
  induction budget generalizing templates order with
  | zero => exact found
  | succ budget inductionHypothesis =>
      cases order with
      | nil => exact found
      | cons oldest rest =>
          unfold evict at found
          split_ifs at found with tooMany same
          · exact inductionHypothesis _ _ found
          · exact (getElem?_erase_iff.mp (inductionHypothesis _ _ found)).2
          · exact found

variable {backend : Backend} {submitter next : BlockCandidateSubmitter}

theorem Faithful.rememberTemplate
    (faithful : Faithful backend submitter)
    {miningHeaderHash : Hash256}
    {blockBlobHex : List UInt8}
    (derives : DerivesHeader backend miningHeaderHash blockBlobHex)
    (remembered :
      submitter.rememberTemplate miningHeaderHash blockBlobHex = .ok next) :
    Faithful backend next := by
  unfold BlockCandidateSubmitter.rememberTemplate at remembered
  obtain ⟨_, _, shape⟩ := except_bind_eq_ok.mp remembered
  cases shape
  refine ⟨?_, faithful.queue, faithful.inFlight⟩
  intro hash hex found
  rcases getElem?_insert_iff.mp (getElem?_evict _ _ _ found) with
    ⟨rfl, rfl⟩ | ⟨_, present⟩
  · exact derives
  · exact faithful.templates present

theorem Faithful.enqueue
    (faithful : Faithful backend submitter)
    (candidate : BlockCandidate) :
    Faithful backend (submitter.enqueue candidate).2 := by
  unfold BlockCandidateSubmitter.enqueue
  by_cases idle : (!submitter.running || submitter.stopRequested) = true
  · rw [if_pos idle]
    exact faithful
  rw [if_neg idle]
  cases found : submitter.templates[candidate.miningHeaderHash]? with
  | none => exact faithful
  | some hex =>
      simp only
      split
      · exact faithful
      · refine ⟨faithful.templates, ?_, faithful.inFlight⟩
        intro queued member
        rcases List.mem_append.mp member with earlier | last
        · exact faithful.queue queued earlier
        · rw [List.mem_singleton] at last
          subst last
          exact faithful.templates found

theorem Faithful.takeNext
    (faithful : Faithful backend submitter) :
    Faithful backend submitter.takeNext := by
  unfold BlockCandidateSubmitter.takeNext
  split
  · rename_i first rest _ queued
    split
    · exact faithful
    · refine ⟨faithful.templates, ?_, ?_⟩
      · intro other member
        exact faithful.queue other (by rw [queued]; simp [member])
      · rintro _ ⟨⟩
        exact faithful.queue first (by rw [queued]; simp)
  · exact faithful

theorem Faithful.finish
    (faithful : Faithful backend submitter)
    (threw : Bool) :
    Faithful backend (submitter.finish threw) := by
  unfold BlockCandidateSubmitter.finish
  split
  · exact faithful
  · split
    · exact ⟨faithful.templates, faithful.queue, by simp⟩
    · refine ⟨?_, ?_, by simp⟩
      · intro hash hex found
        exact faithful.templates (getElem?_erase_iff.mp found).2
      · intro queued member
        exact faithful.queue queued (List.mem_of_mem_filter member)

/-- Every step keeps templates with their headers. -/
theorem Faithful.run
    (faithful : Faithful backend submitter)
    {op : SubmitterOp}
    (genuine : op.Genuine backend) :
    Faithful backend (op.run submitter) := by
  cases op with
  | rememberTemplate hash hex =>
      cases remembered : submitter.rememberTemplate hash hex with
      | ok next =>
          simp only [SubmitterOp.run, remembered]
          exact faithful.rememberTemplate genuine remembered
      | error thrown =>
          simp only [SubmitterOp.run, remembered]
          exact faithful
  | enqueue candidate => exact faithful.enqueue candidate
  | takeNext => exact faithful.takeNext
  | finish threw => exact faithful.finish threw
  | start =>
      by_cases running : submitter.running = true
      · simp only [SubmitterOp.run, BlockCandidateSubmitter.start, running]
        exact faithful
      · simp only [SubmitterOp.run, BlockCandidateSubmitter.start, running]
        exact ⟨faithful.templates, faithful.queue, faithful.inFlight⟩
  | requestStop =>
      simp only [SubmitterOp.run, BlockCandidateSubmitter.requestStop]
      split
      · exact ⟨faithful.templates, faithful.queue, faithful.inFlight⟩
      · exact faithful
  | finishStop =>
      simp only [SubmitterOp.run, BlockCandidateSubmitter.finishStop]
      split
      · exact ⟨faithful.templates, by simp, faithful.inFlight⟩
      · exact faithful

/-- A new submitter holds nothing. -/
theorem create_faithful
    {maxTemplates maxQueue : Nat}
    (created : create maxTemplates maxQueue = .ok submitter) :
    Faithful backend submitter := by
  unfold create at created
  split_ifs at created
  cases created
  exact ⟨fun _ _ found => by simp at found, by simp, by simp⟩

/-- The submitter after some steps. -/
def runAll
    (ops : List SubmitterOp)
    (submitter : BlockCandidateSubmitter) :
    BlockCandidateSubmitter :=
  ops.foldl (fun submitter op => op.run submitter) submitter

theorem Faithful.runAll
    (faithful : Faithful backend submitter)
    {ops : List SubmitterOp}
    (genuine : ∀ op ∈ ops, op.Genuine backend) :
    Faithful backend (runAll ops submitter) := by
  induction ops generalizing submitter with
  | nil => exact faithful
  | cons op rest inductionHypothesis =>
      exact inductionHypothesis (faithful.run (genuine op (by simp)))
        (fun other member => genuine other (by simp [member]))

end BlockCandidateSubmitter

/-- A hexadecimal block that carries a header hash and a nonce. -/
def CarriesSolution
    (backend : Backend)
    (candidate : BlockCandidate)
    (blockBlobHex : List UInt8) :
    Prop :=
  DerivesHeader backend candidate.miningHeaderHash blockBlobHex ∧
    ∀ bytes, hexToBytes blockBlobHex = .ok bytes →
      ofLittleEndian ((bytes.drop 1).take 8) = candidate.nonce.toNat

/--
Writing a nonce into a block changes the nonce only, and the block derives the
same mining header or fails alike; so whatever the steps of a submitter were, the
block it submits carries the header and the nonce of its candidate.
-/
theorem submittedBlock_isMined
    (backend : Backend) :
    (∀ (hex bytes : List UInt8) (nonce : UInt64),
      hexToBytes hex = .ok bytes → 9 ≤ bytes.length →
      ∃ patchedHex patched,
        blockBlobWithNonce hex nonce = .ok patchedHex ∧
        hexToBytes patchedHex = .ok patched ∧
        Patches backend bytes patched nonce) ∧
    (∀ (maxTemplates maxQueue : Nat) (submitter : BlockCandidateSubmitter)
        (ops : List SubmitterOp) (candidate : BlockCandidate)
        (blob : Except Exception (List UInt8)),
      BlockCandidateSubmitter.create maxTemplates maxQueue =
        .ok submitter →
      (∀ op ∈ ops, op.Genuine backend) →
      (BlockCandidateSubmitter.runAll ops submitter).submittedBlob =
        some (candidate, blob) →
      ∃ hex, blob = .ok hex ∧ CarriesSolution backend candidate hex) := by
  constructor
  · intro hex bytes nonce decoded long
    exact ⟨_, _, blockBlobWithNonce_eq decoded long nonce,
      hexToBytes_bytesToHex _, writeNonce_patches backend long nonce⟩
  · intro maxTemplates maxQueue submitter ops candidate blob created genuine
      submitted
    have faithful :=
      (BlockCandidateSubmitter.create_faithful created).runAll genuine
    unfold BlockCandidateSubmitter.submittedBlob at submitted
    obtain ⟨taken, inFlight, shape⟩ := Option.map_eq_some_iff.mp submitted
    cases shape
    obtain ⟨bytes, work, decoded, derived, header⟩ :=
      faithful.inFlight taken inFlight
    have long : 9 ≤ bytes.length := by
      obtain ⟨_, whole, _⟩ :=
        parsePowBlockHeader_eq_ok (deriveMiningHeaderWork_eq_ok derived).header
      rw [List.length_take] at whole
      omega
    have patches := writeNonce_patches backend long taken.candidate.nonce
    have patchedDecodes :=
      hexToBytes_bytesToHex (writeNonce bytes taken.candidate.nonce)
    refine ⟨_, blockBlobWithNonce_eq decoded long _, ?_, ?_⟩
    · exact ⟨_, work, patchedDecodes, patches.derived.trans derived, header⟩
    · intro other otherDecoded
      obtain rfl := Except.ok.inj (patchedDecodes.symm.trans otherDecoded)
      exact patches.nonce

/-- The sample block is remembered, solved with nonce 7 and taken. -/
def sampleSubmissionOps : List SubmitterOp :=
  [ .rememberTemplate sampleWork.headerHash (bytesToHex (sampleBlock 3))
  , .start
  , .enqueue ⟨1, sampleWork.headerHash, 7⟩
  , .takeNext ]

/-- What the sample run submits carries the header and the nonce. -/
theorem sampleSubmission_isMined :
    ∃ hex,
      blockBlobWithNonce (bytesToHex (sampleBlock 3)) 7 = .ok hex ∧
      CarriesSolution spellingBackend ⟨1, sampleWork.headerHash, 7⟩ hex := by
  have genuine :
      ∀ op ∈ sampleSubmissionOps, op.Genuine spellingBackend := by
    intro op member
    simp only [sampleSubmissionOps, List.mem_cons, List.not_mem_nil,
      or_false] at member
    rcases member with rfl | rfl | rfl | rfl
    · exact ⟨sampleBlock 3, sampleWork, hexToBytes_bytesToHex _,
        by decide +kernel, rfl⟩
    · trivial
    · trivial
    · trivial
  obtain ⟨hex, same, carries⟩ :=
    (submittedBlock_isMined spellingBackend).2 8 16
      { maxTemplates := 8, maxQueue := 16 } sampleSubmissionOps
      ⟨1, sampleWork.headerHash, 7⟩
      (blockBlobWithNonce (bytesToHex (sampleBlock 3)) 7) rfl genuine
      (by decide +kernel)
  exact ⟨hex, same, carries⟩

end ZanoP2pool
