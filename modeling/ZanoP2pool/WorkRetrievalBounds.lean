import ZanoP2pool.MiningHeaderCommitment
import ZanoP2pool.P2pMiningContextCodec
import ZanoP2pool.WorkRetrievalSteps

namespace ZanoP2pool

open Foundation

/-!
# Bounds of the retrieval state

The bounds that every sequence of calls keeps: also calls that throw, and with a
clock that runs backwards.
-/

variable {backend : Backend} {json : JsonBackend}

namespace P2pWorkRetrieval

/-- The bytes of an unfinished request: none yet, or whole chunks. -/
def WholeChunks (entry : Pending) : Prop :=
  (entry.bytes = [] ∧ entry.total = 0) ∨
    (0 < entry.bytes.length ∧
      kMiningWorkChunkSize ∣ entry.bytes.length ∧
      entry.bytes.length < entry.total.toNat ∧
      kP2pMiningContextFixedPayloadSize ≤ entry.total.toNat ∧
      entry.total.toNat ≤ kP2pMaxPayloadSize)

/-- The bounds and the shape that the retrieval state keeps. -/
structure Bounded
    (backend : Backend)
    (json : JsonBackend)
    (state : P2pWorkRetrieval) :
    Prop where
  pending : state.pending.size ≤ kMiningWorkMaxPending
  received : state.received.size ≤ kMiningWorkMaxReceived
  active : ∀ nodeId, activeRequests state.pending nodeId ≤ 2
  unfinished :
    ∀ (key : PendingKey) (entry : Pending),
      state.pending[key]? = some entry → entry.finished = false →
        WholeChunks entry
  decodes :
    ∀ (key : MiningWorkKey) (bytes : List UInt8),
      state.received[key]? = some bytes →
        ∃ proposal,
          deserializeP2pMiningContextPayload json bytes = .ok proposal ∧
          checkedKey backend proposal = .ok key

section Preservation

variable {state : P2pWorkRetrieval}

theorem activeRequests_eq
    (pending : Std.ExtTreeMap PendingKey Pending)
    (nodeId : NodeId) :
    activeRequests pending nodeId =
      countBindings pending fun item =>
        decide (item.1.nodeId = nodeId ∧ !item.2.finished) :=
  rfl

theorem live_bounded
    (bounded : Bounded backend json state)
    (now : UInt64) :
    Bounded backend json (live now state) where
  pending := le_trans Std.ExtTreeMap.size_filter_le_size bounded.pending
  received := bounded.received
  active := fun nodeId =>
    le_trans (countBindings_filter_le _) (bounded.active nodeId)
  unfinished := fun key entry found active =>
    bounded.unfinished key entry (live_pending_iff.mp found).1 active
  decodes := bounded.decodes

/-- Replacing an unfinished request by one of whole chunks or a finished one. -/
theorem withPending_bounded
    {key : PendingKey}
    {old entry : Pending}
    (bounded : Bounded backend json state)
    (present : state.pending[key]? = some old)
    (wasActive : old.finished = false)
    (chunks : entry.finished = false → WholeChunks entry) :
    Bounded backend json (state.withPending key entry) where
  pending := by
    unfold withPending
    rw [size_insert_of_present present]
    exact bounded.pending
  received := bounded.received
  active := by
    intro nodeId
    refine le_trans ?_ (bounded.active nodeId)
    unfold withPending
    rw [activeRequests_eq, activeRequests_eq]
    by_cases same : key.nodeId = nodeId
    · exact countBindings_insert_of_counted present
        (by simp [same, wasActive]) entry
    · exact countBindings_insert_of_uncounted (by simp [same])
  unfinished := by
    intro other found bound active
    rcases getElem?_insert_iff.mp bound with ⟨rfl, rfl⟩ | ⟨_, bound⟩
    · exact chunks active
    · exact bounded.unfinished other found bound active
  decodes := bounded.decodes

/-- A chunk that leaves a request unfinished leaves whole chunks. -/
theorem wholeChunks_appendChunk
    {response : MiningWorkResponse}
    {entry : Pending}
    (checked : checkResponse response = .ok ())
    (continues : Continues response entry)
    (more :
      (appendChunk response entry).bytes.length <
        response.totalSize.toNat) :
    WholeChunks (appendChunk response entry) := by
  obtain ⟨aligned, least, most, inside, length⟩ :=
    checkResponse_found checked continues.found
  have extended :
      (appendChunk response entry).bytes.length =
        response.request.offset.toNat + response.chunk.length := by
    rw [continues.offset]
    exact List.length_append
  have full : response.chunk.length = kMiningWorkChunkSize := by omega
  rw [full] at extended
  refine Or.inr ⟨?_, ?_, more, least, most⟩
  · rw [extended]
    exact Nat.add_pos_right _ (by decide)
  · rw [extended]
    exact dvd_add aligned (dvd_refl _)

theorem finish_not_active
    {entry : Pending} :
    (finish entry).finished = false → WholeChunks (finish entry) := by
  intro active
  cases active

/-- A completed piece takes the place of the first one when there are too many. -/
theorem size_storeReceived_le
    {received : Std.ExtTreeMap MiningWorkKey (List UInt8)}
    (few : received.size ≤ kMiningWorkMaxReceived)
    (key : MiningWorkKey)
    (bytes : List UInt8) :
    (storeReceived received key bytes).size ≤ kMiningWorkMaxReceived := by
  unfold storeReceived
  by_cases full : received.size ≥ kMiningWorkMaxReceived
  · rw [if_pos full]
    cases first : received.minKey? with
    | none =>
        have empty := Std.ExtTreeMap.minKey?_eq_none_iff.mp first
        rw [empty] at full
        exact absurd full (by decide)
    | some least =>
        have member := Std.ExtTreeMap.minKey?_mem first
        rw [← Std.ExtTreeMap.contains_iff_mem] at member
        obtain ⟨value, present⟩ := contains_iff_getElem?.mp member
        have erased := size_erase_of_present present
        have inserted :=
          @Std.ExtTreeMap.size_insert_le _ _ _ (received.erase least) _
            key bytes
        dsimp only
        omega
  · rw [if_neg full]
    have inserted :=
      @Std.ExtTreeMap.size_insert_le _ _ _ received _ key bytes
    omega

theorem receive_bounded
    (bounded : Bounded backend json state)
    (peer : P2pHandshake)
    (envelope : P2pEnvelope)
    (now : UInt64) :
    Bounded backend json
      (finalState (receive backend json peer envelope now state)) := by
  have step := @receive_step backend json peer envelope now state
  have alive := live_bounded bounded now
  generalize receive backend json peer envelope now state = result at step
  cases step with
  | malformed thrown unread => exact bounded
  | unsolicited response thrown => exact alive
  | refused response entry written thrown capable parsed requested active =>
      exact withPending_bounded alive requested active finish_not_active
  | missing response entry written capable parsed requested active accepted =>
      rcases acceptChunk_eq_ok.mp accepted with
        ⟨_, _, _, rfl⟩ | ⟨_, _, _, _, wrong, _⟩ | ⟨_, _, _, _, _, wrong, _⟩
      · exact withPending_bounded alive requested active finish_not_active
      · cases wrong
      · cases wrong
  | followup response entry written request capable parsed requested active
      accepted =>
      rcases acceptChunk_eq_ok.mp accepted with
        ⟨_, _, wrong, _⟩ | ⟨continues, rfl, more, _⟩ | ⟨_, _, _, _, _, wrong, _⟩
      · cases wrong
      · exact withPending_bounded alive requested active fun _ =>
          wholeChunks_appendChunk (checkResponse_of_parsed parsed) continues
            more
      · cases wrong
  | complete response entry written id capable parsed requested active
      accepted =>
      have replaced :=
        @withPending_bounded _ _ _ _ _ (finish written) alive requested active
          finish_not_active
      rcases acceptChunk_eq_ok.mp accepted with
        ⟨_, _, wrong, _⟩ | ⟨_, _, _, _, wrong, _⟩ |
          ⟨continues, rfl, done, proposal, _, _, decoded, derived, _⟩
      · cases wrong
      · cases wrong
      · exact {
          pending := replaced.pending
          received := size_storeReceived_le bounded.received _ _
          active := replaced.active
          unfinished := replaced.unfinished
          decodes := by
            intro key bytes stored
            rcases storeReceived_cases stored with ⟨rfl, rfl⟩ | before
            · exact ⟨proposal, decoded, derived⟩
            · exact bounded.decodes key bytes before }

theorem begin_bounded
    (bounded : Bounded backend json state)
    (peer : P2pHandshake)
    (key : MiningWorkKey)
    (now : UInt64) :
    Bounded backend json (finalState (begin peer key now state)) := by
  have step := begin_step peer key now state
  have alive := live_bounded bounded now
  generalize begin peer key now state = result at step
  cases step with
  | unable => exact bounded
  | malformed thrown => exact bounded
  | declined => exact alive
  | requested request slots capable made absent notReceived few room =>
      have roomy : slots.size < kMiningWorkMaxPending := by
        rcases room with ⟨free, rfl⟩ | ⟨reused, entry, present, _, rfl⟩
        · exact free
        · have erased := size_erase_of_present present
          have most := alive.pending
          omega
      have kept :
          ∀ (other : PendingKey) (entry : Pending),
            slots[other]? = some entry →
              (live now state).pending[other]? = some entry := by
        intro other entry found
        rcases room with ⟨_, rfl⟩ | ⟨reused, _, _, _, rfl⟩
        · exact found
        · exact (getElem?_erase_iff.mp found).2
      have fewer : ∀ nodeId,
          activeRequests slots nodeId ≤
            activeRequests (live now state).pending nodeId := by
        intro nodeId
        rw [activeRequests_eq, activeRequests_eq]
        apply countBindings_le_of_present
        intro other entry found counted
        exact ⟨entry, kept other entry found, counted⟩
      refine {
        pending := le_trans Std.ExtTreeMap.size_insert_le roomy
        received := alive.received
        active := ?_
        unfinished := ?_
        decodes := alive.decodes }
      · intro nodeId
        have before := fewer nodeId
        have limit := alive.active nodeId
        rw [activeRequests_eq] at before
        simp only [finalState_ok]
        rw [activeRequests_eq]
        by_cases same : peer.nodeId = nodeId
        · subst nodeId
          have inserted := @countBindings_insert_le _ _ _ _ _ slots
            (fun item =>
              decide (item.1.nodeId = peer.nodeId ∧ !item.2.finished))
            ⟨peer.nodeId, key⟩ { started := now }
          omega
        · have inserted := @countBindings_insert_of_uncounted _ _ _ _ _ slots
            (fun item => decide (item.1.nodeId = nodeId ∧ !item.2.finished))
            ⟨peer.nodeId, key⟩ { started := now } (by simp [same])
          omega
      · intro other entry found active
        rcases getElem?_insert_iff.mp found with ⟨rfl, rfl⟩ | ⟨_, found⟩
        · exact Or.inl ⟨rfl, rfl⟩
        · exact alive.unfinished other entry (kept other entry found) active

theorem takeUntrusted_bounded
    (bounded : Bounded backend json state)
    (key : MiningWorkKey) :
    Bounded backend json (finalState (takeUntrusted key state)) := by
  unfold takeUntrusted
  rw [get_bind_apply]
  cases stored : state.received[key]? with
  | none => exact bounded
  | some bytes =>
      exact {
        pending := bounded.pending
        received :=
          le_trans Std.ExtTreeMap.size_erase_le bounded.received
        active := bounded.active
        unfinished := bounded.unfinished
        decodes := by
          intro other found kept
          exact bounded.decodes other found (getElem?_erase_iff.mp kept).2 }

end Preservation

end P2pWorkRetrieval

open P2pWorkRetrieval

theorem attempt_bounded
    {state : P2pWorkRetrieval}
    (bounded : Bounded backend json state)
    (op : RetrievalOp) :
    Bounded backend json (op.attempt backend json state) := by
  cases op with
  | begin peer key now => exact begin_bounded bounded peer key now
  | receive peer envelope now => exact receive_bounded bounded peer envelope now
  | takeUntrusted key => exact takeUntrusted_bounded bounded key
  | rememberLocal proposal =>
      obtain ⟨samePending, sameReceived⟩ :=
        @rememberLocal_frame backend json state proposal
      simp only [RetrievalOp.attempt]
      exact {
        pending := samePending ▸ bounded.pending
        received := sameReceived ▸ bounded.received
        active := samePending ▸ bounded.active
        unfinished := samePending ▸ bounded.unfinished
        decodes := sameReceived ▸ bounded.decodes }

/-- The bounds hold after every sequence of calls on a fresh object. -/
theorem attemptRetrieval_bounded
    (start : P2pWorkRetrieval)
    (noRequests : start.pending = ∅)
    (nothingReceived : start.received = ∅)
    (ops : List RetrievalOp) :
    Bounded backend json (attemptRetrieval backend json ops start) := by
  have fresh : Bounded backend json start := {
    pending := by simp [noRequests, kMiningWorkMaxPending]
    received := by simp [nothingReceived, kMiningWorkMaxReceived]
    active := by
      intro nodeId
      rw [activeRequests_eq, countBindings_eq_size, noRequests]
      refine le_trans Std.ExtTreeMap.size_filter_le_size ?_
      simp
    unfinished := by simp [noRequests]
    decodes := by simp [nothingReceived] }
  clear noRequests nothingReceived
  induction ops generalizing start with
  | nil => exact fresh
  | cons op rest inductionHypothesis =>
      exact inductionHypothesis _ (attempt_bounded fresh op)

/-- A peer that answers work requests. -/
def sampleWorkPeer : P2pHandshake where
  nodeId := 7
  capabilities := kP2pCapabilityWorkRetrieval

/-- A proposal with the sample template and blanks behind its text. -/
def sampleWorkProposal (blanks : Nat) : P2pMiningContextProposal where
  zanoHeight := 7
  networkDifficulty := 100
  blockTemplateBlob := sampleBlock 0
  minerTxTgcJson := sampleTgcText blanks

/-- The key of the sample work. -/
def sampleWorkKey : MiningWorkKey where
  zanoHeight := 7
  miningHeaderHash := sampleWork.headerHash

/-- A response that carries a payload of one chunk. -/
def sampleWorkResponse
    (key : MiningWorkKey)
    (payload : List UInt8) :
    P2pEnvelope where
  type := .miningWorkResponse
  payload :=
    miningWorkRequestBytes { key } ++
      appendU32Be (UInt32.ofNat payload.length) ++ payload

/-- Two requests: one is answered with its work, the other one with zeros. -/
def sampleRetrievalOps : List RetrievalOp :=
  let other : MiningWorkKey := ⟨8, 5⟩
  [ .begin sampleWorkPeer sampleWorkKey 100
  , .begin sampleWorkPeer other 100
  , .receive sampleWorkPeer
      (sampleWorkResponse sampleWorkKey
        (miningContextBytes (sampleWorkProposal 0))) 110
  , .receive sampleWorkPeer
      (sampleWorkResponse other (List.replicate 121 0)) 120 ]

/-- The sample stores the work that arrived and nothing of the refused response. -/
theorem sampleRetrievalOps_bounded :
    let reached :=
      attemptRetrieval spellingBackend sampleTgcJson sampleRetrievalOps {}
    reached.received.toList =
        [(sampleWorkKey, miningContextBytes (sampleWorkProposal 0))] ∧
      (reached.pending.toList.map fun item =>
        (item.2.finished, item.2.bytes)) = [(true, []), (true, [])] ∧
      Bounded spellingBackend sampleTgcJson reached := by
  intro reached
  obtain ⟨stored, kept⟩ :
      reached.received.toList =
          [(sampleWorkKey, miningContextBytes (sampleWorkProposal 0))] ∧
        (reached.pending.toList.map fun item =>
          (item.2.finished, item.2.bytes)) = [(true, []), (true, [])] := by
    decide +kernel
  exact ⟨stored, kept, attemptRetrieval_bounded {} rfl rfl sampleRetrievalOps⟩

end ZanoP2pool
