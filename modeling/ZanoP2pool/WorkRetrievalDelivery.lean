import ZanoP2pool.MiningHeaderCommitment
import ZanoP2pool.P2pMiningContextCodec
import ZanoP2pool.WorkRetrievalBounds

namespace ZanoP2pool

open Foundation P2pWorkRetrieval

/-!
# Delivery of retrieved work

A requester and a responder exchange one piece of work while the requester serves
other peers and keys.  The piece arrives whole after one response per chunk.
Whatever peers send, a piece is assembled from consecutive chunks of one peer.
-/

variable {backend : Backend} {json : JsonBackend}
variable {archive : MiningWorkArchive}

/-- The responder has a payload under a key. -/
def HoldsPayload
    (archive : MiningWorkArchive)
    (responder : P2pWorkRetrieval)
    (key : MiningWorkKey)
    (payload : List UInt8) :
    Prop :=
  ∃ id, responder.localWork[key]? = some id ∧ archive id = .ok payload

/-- The key that the proposal in a payload is retrieved by. -/
def PayloadOf
    (backend : Backend)
    (json : JsonBackend)
    (key : MiningWorkKey)
    (payload : List UInt8) :
    Prop :=
  ∃ proposal,
    deserializeP2pMiningContextPayload json payload = .ok proposal ∧
    checkedKey backend proposal = .ok key

/-- The times at which a request begun at `started` is live. -/
def InLifetime (started now : UInt64) : Prop :=
  started ≤ now ∧ now - started < kMiningWorkRequestLifetime

/-- A call within the lifetime that is not a response for the given request. -/
def RetrievalOp.Elsewhere (pair : PendingKey) (started : UInt64) :
    RetrievalOp → Prop
  | .begin _ _ now => InLifetime started now
  | .receive peer envelope now =>
      InLifetime started now ∧
        ∀ response, parseMiningWorkResponse envelope = .ok response →
          (⟨peer.nodeId, response.request.key⟩ : PendingKey) ≠ pair
  | .takeUntrusted _ => True
  | .rememberLocal _ => True

/-- What happens to the requester during a transfer. -/
inductive TransferEvent where
  | reply (responder : P2pWorkRetrieval) (now : UInt64)
  | other (op : RetrievalOp)

/-- The requester, its latest request and what the responses led to. -/
structure Transfer where
  state : P2pWorkRetrieval
  latest : P2pEnvelope
  reports : List MiningWorkReceiveResult := []

/-- The responder answers the latest request, or another call is made. -/
def TransferEvent.run
    (backend : Backend)
    (json : JsonBackend)
    (archive : MiningWorkArchive)
    (peer requester : P2pHandshake)
    (transfer : Transfer) :
    TransferEvent → Except Exception Transfer
  | .reply responder now => do
      let envelope ← answer archive responder requester transfer.latest
      match receive backend json peer envelope now transfer.state with
      | .error thrown _ => throw thrown
      | .ok report state =>
          return {
            state
            latest := report.followup.getD transfer.latest
            reports := transfer.reports ++ [report] }
  | .other op =>
      return { transfer with state := op.attempt backend json transfer.state }

/-- Replies come from a responder with the payload, within the lifetime. -/
def TransferEvent.Allowed
    (archive : MiningWorkArchive)
    (pair : PendingKey)
    (payload : List UInt8)
    (started : UInt64) :
    TransferEvent → Prop
  | .reply responder now =>
      HoldsPayload archive responder pair.key payload ∧
        InLifetime started now
  | .other op => op.Elsewhere pair started

/-- Whether an event delivers a reply. -/
def TransferEvent.isReply : TransferEvent → Bool
  | .reply _ _ => true
  | .other _ => false

/-- The ids that a sequence of calls reported. -/
def completions
    (backend : Backend)
    (json : JsonBackend) :
    List RetrievalOp → P2pWorkRetrieval → List Hash256
  | [], _ => []
  | op :: rest, state =>
      let later := completions backend json rest (op.attempt backend json state)
      match op with
      | .receive peer envelope now =>
          match receive backend json peer envelope now state with
          | .ok { receivedId := some id, .. } _ => id :: later
          | _ => later
      | _ => later

section Frame

variable {pair : PendingKey} {started : UInt64} {entry : Pending}
variable {state : P2pWorkRetrieval}

/-- A request is kept by every call within its lifetime. -/
theorem live_keeps
    {now : UInt64}
    (inTime : InLifetime started now)
    (begun : entry.started = started)
    (present : state.pending[pair]? = some entry) :
    (live now state).pending[pair]? = some entry := by
  rw [live_pending_iff]
  refine ⟨present, ?_⟩
  unfold expired
  rw [begun, decide_eq_false_iff_not, not_or]
  exact ⟨UInt64.not_lt.mpr inTime.1, UInt64.not_le.mpr inTime.2⟩

/-- Calls for other peers and keys leave an active request alone. -/
theorem attempt_elsewhere
    {op : RetrievalOp}
    (elsewhere : op.Elsewhere pair started)
    (begun : entry.started = started)
    (active : entry.finished = false)
    (present : state.pending[pair]? = some entry) :
    (op.attempt backend json state).pending[pair]? = some entry := by
  cases op with
  | begin peer key now =>
      have alive := live_keeps elsewhere begun present
      have step := begin_step peer key now state
      simp only [RetrievalOp.attempt]
      generalize begin peer key now state = result at step
      cases step with
      | unable => exact present
      | malformed thrown => exact present
      | declined => exact alive
      | requested request slots capable made absent notReceived few room =>
          have differs : pair ≠ ⟨peer.nodeId, key⟩ := by
            intro same
            rw [same, absent] at alive
            cases alive
          refine getElem?_insert_iff.mpr (Or.inr ⟨differs, ?_⟩)
          rcases room with ⟨_, rfl⟩ | ⟨reused, other, found, finished, rfl⟩
          · exact alive
          · refine getElem?_erase_iff.mpr ⟨?_, alive⟩
            intro same
            subst reused
            rw [alive] at found
            cases found
            rw [active] at finished
            cases finished
  | receive peer envelope now =>
      obtain ⟨inTime, away⟩ := elsewhere
      have alive := live_keeps inTime begun present
      have step := @receive_step backend json peer envelope now state
      simp only [RetrievalOp.attempt]
      generalize receive backend json peer envelope now state = result at step
      have replaced :
          ∀ (response : MiningWorkResponse) (written : Pending),
            parseMiningWorkResponse envelope = .ok response →
              ((live now state).withPending
                ⟨peer.nodeId, response.request.key⟩ written).pending[pair]? =
                  some entry := by
        intro response written parsed
        exact getElem?_insert_iff.mpr
          (Or.inr ⟨(away response parsed).symm, alive⟩)
      cases step with
      | malformed thrown => exact present
      | unsolicited response thrown => exact alive
      | refused response _ written thrown capable parsed =>
          exact replaced _ _ parsed
      | missing response _ written capable parsed => exact replaced _ _ parsed
      | followup response _ written request capable parsed =>
          exact replaced _ _ parsed
      | complete response _ written id capable parsed =>
          exact replaced _ _ parsed
  | takeUntrusted key =>
      simp only [RetrievalOp.attempt, takeUntrusted, get_bind_apply]
      cases state.received[key]? with
      | none => exact present
      | some bytes => exact present
  | rememberLocal proposal =>
      simp only [RetrievalOp.attempt]
      rw [(rememberLocal_frame proposal).1]
      exact present

/-- A completed piece stays while nothing completes and nobody takes it. -/
theorem attempt_keeps_received
    {key : MiningWorkKey}
    {bytes : List UInt8}
    (op : RetrievalOp)
    (stored : state.received[key]? = some bytes)
    (quiet : completions backend json [op] state = [])
    (notTaken : op ≠ .takeUntrusted key) :
    (op.attempt backend json state).received[key]? = some bytes := by
  cases op with
  | begin peer other now =>
      have step := begin_step peer other now state
      simp only [RetrievalOp.attempt]
      generalize begin peer other now state = result at step
      cases step <;> exact stored
  | receive peer envelope now =>
      have step := @receive_step backend json peer envelope now state
      simp only [RetrievalOp.attempt]
      simp only [completions] at quiet
      generalize receive backend json peer envelope now state = result
        at step quiet
      cases step with
      | malformed => exact stored
      | unsolicited => exact stored
      | refused => exact stored
      | missing => exact stored
      | followup => exact stored
      | complete => cases quiet
  | takeUntrusted other =>
      have differs : key ≠ other := by
        rintro rfl
        exact notTaken rfl
      simp only [RetrievalOp.attempt, takeUntrusted, get_bind_apply]
      cases state.received[other]? with
      | none => exact stored
      | some found => exact getElem?_erase_iff.mpr ⟨differs, stored⟩
  | rememberLocal proposal =>
      simp only [RetrievalOp.attempt]
      rw [(rememberLocal_frame proposal).2]
      exact stored

theorem completions_cons
    (op : RetrievalOp)
    (rest : List RetrievalOp) :
    completions backend json (op :: rest) state =
      completions backend json [op] state ++
        completions backend json rest (op.attempt backend json state) := by
  cases op with
  | begin => rfl
  | receive peer envelope now =>
      simp only [completions]
      split <;> rfl
  | takeUntrusted => rfl
  | rememberLocal => rfl

theorem attemptRetrieval_keeps_received
    {key : MiningWorkKey}
    {bytes : List UInt8}
    (ops : List RetrievalOp)
    (stored : state.received[key]? = some bytes)
    (quiet : completions backend json ops state = [])
    (notTaken : ∀ op ∈ ops, op ≠ .takeUntrusted key) :
    (attemptRetrieval backend json ops state).received[key]? =
      some bytes := by
  induction ops generalizing state with
  | nil => exact stored
  | cons op rest inductionHypothesis =>
      rw [completions_cons, List.append_eq_nil_iff] at quiet
      obtain ⟨here, later⟩ := List.forall_mem_cons.mp notTaken
      exact inductionHypothesis
        (attempt_keeps_received op stored quiet.1 here) quiet.2 later

end Frame

section Replies

variable {pair : PendingKey} {payload : List UInt8} {started : UInt64}

/-- The response to the request for the chunk after `sent` others. -/
def replyAt
    (key : MiningWorkKey)
    (payload : List UInt8)
    (sent : Nat) :
    MiningWorkResponse where
  request := { key, offset := UInt32.ofNat (sent * kMiningWorkChunkSize) }
  totalSize := UInt32.ofNat payload.length
  chunk :=
    (payload.drop (sent * kMiningWorkChunkSize)).take kMiningWorkChunkSize

/-- The sizes that an archived payload can have. -/
theorem PayloadOf.sizes
    {key : MiningWorkKey}
    (valid : PayloadOf backend json key payload) :
    kP2pMiningContextFixedPayloadSize ≤ payload.length ∧
      payload.length ≤ kP2pMaxPayloadSize := by
  obtain ⟨proposal, decoded, _⟩ := valid
  unfold deserializeP2pMiningContextPayload at decoded
  simp only [throw, throwThe, MonadExceptOf.throw] at decoded
  rw [except_guard_eq_ok, not_or] at decoded
  exact ⟨not_lt.mp decoded.1.1, not_lt.mp decoded.1.2⟩

theorem toNat_totalSize
    (most : payload.length ≤ kP2pMaxPayloadSize) :
    (UInt32.ofNat payload.length).toNat = payload.length :=
  UInt32.toNat_ofNat_of_lt' (lt_of_le_of_lt most (by decide))

theorem toNat_offset
    {size : Nat}
    (most : payload.length ≤ kP2pMaxPayloadSize)
    (inside : size < payload.length) :
    (UInt32.ofNat size).toNat = size :=
  UInt32.toNat_ofNat_of_lt'
    (lt_trans (lt_of_lt_of_le inside most) (by decide))

/-- A reply to a valid request passes the checks of the wire format. -/
theorem checkResponse_replyAt
    {key : MiningWorkKey}
    {sent : Nat}
    (least : kP2pMiningContextFixedPayloadSize ≤ payload.length)
    (most : payload.length ≤ kP2pMaxPayloadSize)
    (more : sent * kMiningWorkChunkSize < payload.length)
    (requested : checkRequest
      { key, offset := UInt32.ofNat (sent * kMiningWorkChunkSize) } = .ok ()) :
    checkResponse (replyAt key payload sent) = .ok () := by
  have total := toNat_totalSize most
  have offset := toNat_offset most more
  have found : (replyAt key payload sent).totalSize ≠ 0 := by
    intro zero
    have none : (UInt32.ofNat payload.length).toNat = 0 :=
      congrArg UInt32.toNat zero
    rw [total] at none
    rw [none] at least
    exact absurd least (by decide)
  have inside :
      UInt32.ofNat (sent * kMiningWorkChunkSize) <
        UInt32.ofNat payload.length := by
    rw [UInt32.lt_iff_toNat_lt, total, offset]
    exact more
  unfold checkResponse
  rw [except_seq_eq_ok, if_neg found, except_seq_eq_ok, require_eq_ok,
    require_eq_ok]
  refine ⟨requested, ⟨?_, ?_, inside⟩, ?_⟩
  · exact total ▸ least
  · exact total ▸ most
  · simp only [replyAt]
    rw [UInt32.toNat_sub_of_le _ _ (UInt32.le_of_lt inside), total, offset,
      List.length_take, List.length_drop]

/-- A responder with the payload answers with the chunk that was asked for. -/
theorem answer_replies
    {responder : P2pWorkRetrieval}
    {requester : P2pHandshake}
    {latest : P2pEnvelope}
    {key : MiningWorkKey}
    {sent : Nat}
    (capable : checkPeer requester = .ok ())
    (holds : HoldsPayload archive responder key payload)
    (least : kP2pMiningContextFixedPayloadSize ≤ payload.length)
    (most : payload.length ≤ kP2pMaxPayloadSize)
    (more : sent * kMiningWorkChunkSize < payload.length)
    (requested : makeMiningWorkRequest
      { key, offset := UInt32.ofNat (sent * kMiningWorkChunkSize) } =
        .ok latest) :
    ∃ envelope,
      answer archive responder requester latest = .ok envelope ∧
      parseMiningWorkResponse envelope = .ok (replyAt key payload sent) := by
  obtain ⟨id, indexed, read⟩ := holds
  have offset := toNat_offset most more
  have checked := checkResponse_replyAt least most more
    (makeMiningWorkRequest_eq_ok.mp requested).1
  have made := makeMiningWorkResponse_eq_ok.mpr ⟨checked, rfl⟩
  refine ⟨_, ?_, parseMiningWorkResponse_eq_ok.mpr made⟩
  unfold answer
  rw [except_seq_eq_ok]
  refine ⟨capable, ?_⟩
  rw [except_bind_eq_ok]
  refine ⟨_, parseMiningWorkRequest_eq_ok.mpr requested, ?_⟩
  dsimp only
  rw [indexed]
  dsimp only
  rw [except_bind_eq_ok]
  refine ⟨payload, read, ?_⟩
  rw [offset, except_seq_eq_ok, require_eq_ok]
  refine ⟨more, ?_⟩
  have whole :
      (payload.drop (sent * kMiningWorkChunkSize)).take
          (min kMiningWorkChunkSize
            (payload.length - sent * kMiningWorkChunkSize)) =
        (payload.drop (sent * kMiningWorkChunkSize)).take
          kMiningWorkChunkSize := by
    rw [List.take_eq_take_iff, List.length_drop]
    omega
  rw [whole]
  exact made

/-- The request after a number of chunks of the payload arrived. -/
def partialEntry
    (started : UInt64)
    (payload : List UInt8)
    (sent : Nat) :
    Pending where
  started
  total := if sent = 0 then 0 else UInt32.ofNat payload.length
  bytes := payload.take (sent * kMiningWorkChunkSize)

section Chunks

variable {key : MiningWorkKey} {sent : Nat}

/-- A reply continues the request that it answers. -/
theorem replyAt_continues
    (least : kP2pMiningContextFixedPayloadSize ≤ payload.length)
    (most : payload.length ≤ kP2pMaxPayloadSize)
    (more : sent * kMiningWorkChunkSize < payload.length) :
    Continues (replyAt key payload sent)
      (partialEntry started payload sent) where
  offset := by
    have offset := toNat_offset most more
    simp only [replyAt, partialEntry]
    rw [offset, List.length_take]
    omega
  found := by
    intro zero
    have none : (UInt32.ofNat payload.length).toNat = 0 :=
      congrArg UInt32.toNat zero
    rw [toNat_totalSize most] at none
    rw [none] at least
    exact absurd least (by decide)
  total := by
    simp only [partialEntry]
    by_cases first : sent = 0
    · rw [if_pos first]
      exact Or.inl rfl
    · rw [if_neg first]
      exact Or.inr rfl

/-- The request after a reply is one chunk longer. -/
theorem appendChunk_replyAt :
    appendChunk (replyAt key payload sent)
        (partialEntry started payload sent) =
      partialEntry started payload (sent + 1) := by
  simp only [appendChunk, replyAt, partialEntry]
  rw [if_neg (Nat.succ_ne_zero sent), Nat.succ_mul, List.take_add]

/-- A reply before the last one asks for the next chunk. -/
theorem acceptChunk_followup
    {latest : P2pEnvelope}
    (least : kP2pMiningContextFixedPayloadSize ≤ payload.length)
    (most : payload.length ≤ kP2pMaxPayloadSize)
    (next : (sent + 1) * kMiningWorkChunkSize < payload.length)
    (requested : makeMiningWorkRequest
      { key, offset := UInt32.ofNat (sent * kMiningWorkChunkSize) } =
        .ok latest) :
    ∃ request,
      makeMiningWorkRequest
          { key
            offset := UInt32.ofNat ((sent + 1) * kMiningWorkChunkSize) } =
        .ok request ∧
      acceptChunk backend json (replyAt key payload sent)
          (partialEntry started payload sent) =
        .ok (.followup request) (partialEntry started payload (sent + 1)) := by
  have more : sent * kMiningWorkChunkSize < payload.length := by
    rw [Nat.succ_mul] at next
    omega
  have length :
      (partialEntry started payload (sent + 1)).bytes.length =
        (sent + 1) * kMiningWorkChunkSize := by
    simp only [partialEntry]
    rw [List.length_take]
    omega
  have checked := (makeMiningWorkRequest_eq_ok.mp requested).1
  unfold checkRequest at checked
  rw [require_eq_ok] at checked
  have nextChecked :
      checkRequest
        { key
          offset := UInt32.ofNat ((sent + 1) * kMiningWorkChunkSize) } =
        .ok () := by
    unfold checkRequest
    rw [require_eq_ok, toNat_offset most next]
    exact ⟨checked.1, lt_of_lt_of_le next most, Nat.mul_mod_left _ _⟩
  have made := makeMiningWorkRequest_eq_ok.mpr ⟨nextChecked, rfl⟩
  refine ⟨_, made, acceptChunk_eq_ok.mpr (Or.inr (Or.inl ⟨?_, ?_, ?_, ?_⟩))⟩
  · exact replyAt_continues least most more
  · exact appendChunk_replyAt.symm
  · rw [length]
    exact (toNat_totalSize most).symm ▸ next
  · refine ⟨_, rfl, ?_⟩
    rw [length]
    exact made

/-- The last reply completes the payload. -/
theorem acceptChunk_complete
    (valid : PayloadOf backend json key payload)
    (more : sent * kMiningWorkChunkSize < payload.length)
    (last : payload.length ≤ (sent + 1) * kMiningWorkChunkSize) :
    acceptChunk backend json (replyAt key payload sent)
        (partialEntry started payload sent) =
      .ok (.complete (backend.cnFastHash payload))
        (partialEntry started payload (sent + 1)) ∧
    (partialEntry started payload (sent + 1)).bytes = payload := by
  obtain ⟨least, most⟩ := valid.sizes
  have whole : (partialEntry started payload (sent + 1)).bytes = payload :=
    List.take_of_length_le last
  refine ⟨?_, whole⟩
  obtain ⟨proposal, decoded, derived⟩ := valid
  have identified :
      p2pMiningContextId backend json proposal =
        .ok (backend.cnFastHash payload) := by
    unfold p2pMiningContextId
    rw [deserializeP2pMiningContextPayload_eq_ok.mp decoded]
    rfl
  refine acceptChunk_eq_ok.mpr (Or.inr (Or.inr ⟨?_, ?_, ?_, ?_⟩))
  · exact replyAt_continues least most more
  · exact appendChunk_replyAt.symm
  · rw [whole]
    exact (toNat_totalSize most).le
  · refine ⟨proposal, _, rfl, ?_, derived, identified⟩
    rw [whole]
    exact decoded

end Chunks

/-- How far a transfer has come: the chunks it has and the one it asked for. -/
structure Progress
    (pair : PendingKey)
    (payload : List UInt8)
    (started : UInt64)
    (sent : Nat)
    (transfer : Transfer) :
    Prop where
  requested :
    makeMiningWorkRequest
      { key := pair.key
        offset := UInt32.ofNat (sent * kMiningWorkChunkSize) } =
      .ok transfer.latest
  pending :
    transfer.state.pending[pair]? = some (partialEntry started payload sent)
  more : sent * kMiningWorkChunkSize < payload.length
  silent : ∀ report ∈ transfer.reports, report.receivedId = none

section Step

variable {peer requester : P2pHandshake} {key : MiningWorkKey}
variable {responder : P2pWorkRetrieval} {transfer : Transfer}
variable {sent : Nat} {now : UInt64}

/-- A reply is received by the request it answers. -/
theorem reply_settles
    (valid : PayloadOf backend json key payload)
    (capable : checkPeer peer = .ok ())
    (asked : checkPeer requester = .ok ())
    (progress : Progress ⟨peer.nodeId, key⟩ payload started sent transfer)
    (holds : HoldsPayload archive responder key payload)
    (inTime : InLifetime started now) :
    ∃ envelope,
      answer archive responder requester transfer.latest = .ok envelope ∧
      receive backend json peer envelope now transfer.state =
        settleChunk (live now transfer.state) ⟨peer.nodeId, key⟩
          (acceptChunk backend json (replyAt key payload sent)
            (partialEntry started payload sent)) := by
  obtain ⟨least, most⟩ := valid.sizes
  obtain ⟨envelope, answered, parsed⟩ := answer_replies asked holds least most
    progress.more progress.requested
  refine ⟨envelope, answered, ?_⟩
  have present := live_keeps inTime rfl progress.pending
  rw [receive_of_parsed capable parsed]
  simp only [replyAt] at present ⊢
  rw [present]
  rfl

/-- A reply before the last one advances the transfer by a chunk. -/
theorem reply_advances
    (valid : PayloadOf backend json key payload)
    (capable : checkPeer peer = .ok ())
    (asked : checkPeer requester = .ok ())
    (progress : Progress ⟨peer.nodeId, key⟩ payload started sent transfer)
    (holds : HoldsPayload archive responder key payload)
    (inTime : InLifetime started now)
    (next : (sent + 1) * kMiningWorkChunkSize < payload.length) :
    ∃ after,
      TransferEvent.run backend json archive peer requester transfer
          (.reply responder now) = .ok after ∧
        Progress ⟨peer.nodeId, key⟩ payload started (sent + 1) after := by
  obtain ⟨least, most⟩ := valid.sizes
  obtain ⟨envelope, answered, received⟩ :=
    reply_settles valid capable asked progress holds inTime
  obtain ⟨request, made, accepted⟩ :=
    @acceptChunk_followup backend json payload started key sent _ least most
      next progress.requested
  rw [accepted] at received
  let after : Transfer := {
    state := (live now transfer.state).withPending ⟨peer.nodeId, key⟩
      (partialEntry started payload (sent + 1))
    latest := request
    reports := transfer.reports ++ [{ followup := some request }] }
  refine ⟨after, ?_, ?_⟩
  · unfold TransferEvent.run
    refine except_bind_eq_ok.mpr ⟨envelope, answered, ?_⟩
    rw [received]
    rfl
  · exact {
      requested := made
      pending := getElem?_insert_iff.mpr (Or.inl ⟨rfl, rfl⟩)
      more := next
      silent := by
        intro report member
        rcases List.mem_append.mp member with earlier | new
        · exact progress.silent report earlier
        · cases List.mem_singleton.mp new
          rfl }

/-- The last reply reports the payload's id and stores the payload. -/
theorem reply_completes
    (valid : PayloadOf backend json key payload)
    (capable : checkPeer peer = .ok ())
    (asked : checkPeer requester = .ok ())
    (progress : Progress ⟨peer.nodeId, key⟩ payload started sent transfer)
    (holds : HoldsPayload archive responder key payload)
    (inTime : InLifetime started now)
    (last : payload.length ≤ (sent + 1) * kMiningWorkChunkSize) :
    ∃ envelope final,
      answer archive responder requester transfer.latest = .ok envelope ∧
      receive backend json peer envelope now transfer.state =
        .ok { receivedId := some (backend.cnFastHash payload) } final ∧
      final.received[key]? = some payload := by
  obtain ⟨envelope, answered, received⟩ :=
    reply_settles valid capable asked progress holds inTime
  obtain ⟨accepted, whole⟩ :=
    @acceptChunk_complete backend json payload started key sent valid
      progress.more last
  rw [accepted] at received
  refine ⟨envelope, _, answered, received, ?_⟩
  dsimp only
  rw [whole]
  exact getElem?_storeReceived

end Step

/-- Other calls leave a transfer where it is. -/
theorem other_keeps
    {sent : Nat}
    {transfer : Transfer}
    {op : RetrievalOp}
    (progress : Progress pair payload started sent transfer)
    (elsewhere : op.Elsewhere pair started) :
    Progress pair payload started sent
      { transfer with state := op.attempt backend json transfer.state } where
  requested := progress.requested
  pending := attempt_elsewhere elsewhere rfl rfl progress.pending
  more := progress.more
  silent := progress.silent

/-- Fewer replies than chunks leave the transfer under way. -/
theorem transfer_progresses
    {peer requester : P2pHandshake}
    {key : MiningWorkKey}
    (valid : PayloadOf backend json key payload)
    (capable : checkPeer peer = .ok ())
    (asked : checkPeer requester = .ok ())
    (events : List TransferEvent)
    {sent : Nat}
    {transfer : Transfer}
    (progress : Progress ⟨peer.nodeId, key⟩ payload started sent transfer)
    (allowed : ∀ event ∈ events,
      event.Allowed archive ⟨peer.nodeId, key⟩ payload started)
    (short : (sent + events.countP TransferEvent.isReply) *
      kMiningWorkChunkSize < payload.length) :
    ∃ after,
      events.foldlM
          (TransferEvent.run backend json archive peer requester) transfer =
        .ok after ∧
      Progress ⟨peer.nodeId, key⟩ payload started
        (sent + events.countP TransferEvent.isReply) after := by
  induction events generalizing sent transfer with
  | nil => exact ⟨transfer, rfl, progress⟩
  | cons event rest inductionHypothesis =>
      obtain ⟨here, later⟩ := List.forall_mem_cons.mp allowed
      rw [List.foldlM_cons]
      cases event with
      | other op =>
          obtain ⟨after, ran, reached⟩ := inductionHypothesis
            (@other_keeps backend json _ _ _ _ _ _ progress here) later short
          exact ⟨after, ran, reached⟩
      | reply responder now =>
          have counted :
              sent + (TransferEvent.reply responder now :: rest).countP
                  TransferEvent.isReply =
                (sent + 1) + rest.countP TransferEvent.isReply := by
            rw [List.countP_cons_of_pos rfl]
            omega
          rw [counted] at short ⊢
          have next : (sent + 1) * kMiningWorkChunkSize < payload.length :=
            lt_of_le_of_lt
              (Nat.mul_le_mul_right _ (Nat.le_add_right _ _)) short
          obtain ⟨middle, stepped, advanced⟩ :=
            reply_advances valid capable asked progress here.1 here.2 next
          obtain ⟨after, ran, reached⟩ :=
            inductionHypothesis advanced later short
          exact ⟨after, except_bind_eq_ok.mpr ⟨middle, stepped, ran⟩, reached⟩

/-- A request that was begun has asked for the first chunk. -/
theorem begin_progress
    {peer : P2pHandshake}
    {key : MiningWorkKey}
    {before after : P2pWorkRetrieval}
    {request : P2pEnvelope}
    (valid : PayloadOf backend json key payload)
    (begun : begin peer key started before = .ok (some request) after) :
    checkPeer peer = .ok () ∧
      Progress ⟨peer.nodeId, key⟩ payload started 0
        { state := after, latest := request } := by
  have step := begin_step peer key started before
  rw [begun] at step
  obtain ⟨least, _⟩ := valid.sizes
  cases step with
  | requested _ slots capable made =>
      refine ⟨capable, ?_⟩
      exact {
        requested := made
        pending := getElem?_insert_iff.mpr (Or.inl ⟨rfl, rfl⟩)
        more := lt_of_lt_of_le (by decide) least
        silent := by
          intro report member
          cases member }

/-- The payload arrives with the reply to the request for its last chunk. -/
theorem transfer_delivers
    {peer requester : P2pHandshake}
    {key : MiningWorkKey}
    {before after : P2pWorkRetrieval}
    {request : P2pEnvelope}
    (valid : PayloadOf backend json key payload)
    (begun : begin peer key started before = .ok (some request) after)
    (asked : checkPeer requester = .ok ())
    (events : List TransferEvent)
    (allowed : ∀ event ∈ events,
      event.Allowed archive ⟨peer.nodeId, key⟩ payload started)
    (oneLeft :
      events.countP TransferEvent.isReply + 1 =
        payload.length ⌈/⌉ kMiningWorkChunkSize)
    {responder : P2pWorkRetrieval}
    {now : UInt64}
    (holds : HoldsPayload archive responder key payload)
    (inTime : InLifetime started now) :
    ∃ transfer envelope final,
      events.foldlM (TransferEvent.run backend json archive peer requester)
          { state := after, latest := request } = .ok transfer ∧
      (∀ report ∈ transfer.reports, report.receivedId = none) ∧
      answer archive responder requester transfer.latest = .ok envelope ∧
      receive backend json peer envelope now transfer.state =
        .ok { receivedId := some (backend.cnFastHash payload) } final ∧
      final.received[key]? = some payload := by
  obtain ⟨capable, progress⟩ := begin_progress valid begun
  have length : 0 < payload.length :=
    lt_of_lt_of_le (by decide) valid.sizes.1
  rw [Nat.ceilDiv_eq_add_pred_div] at oneLeft
  have bounds :
      events.countP TransferEvent.isReply * kMiningWorkChunkSize <
          payload.length ∧
        payload.length ≤
          (events.countP TransferEvent.isReply + 1) *
            kMiningWorkChunkSize := by
    unfold kMiningWorkChunkSize at oneLeft ⊢
    omega
  obtain ⟨transfer, ran, reached⟩ :=
    transfer_progresses valid capable asked events progress allowed
      (by rw [Nat.zero_add]; exact bounds.1)
  rw [Nat.zero_add] at reached
  obtain ⟨envelope, final, answered, received, stored⟩ :=
    reply_completes valid capable asked reached holds inTime bounds.2
  exact ⟨transfer, envelope, final, ran, reached.silent, answered, received,
    stored⟩

end Replies

section Assembly

/--
The responses for one request so far after one more call.  A response counts when
its call returns; a call for the request that throws makes the earlier ones void.
-/
def RetrievalOp.accepted
    (backend : Backend)
    (json : JsonBackend)
    (pair : PendingKey)
    (state : P2pWorkRetrieval)
    (log : List MiningWorkResponse) :
    RetrievalOp → List MiningWorkResponse
  | .receive peer envelope now =>
      match checkPeer peer, parseMiningWorkResponse envelope with
      | .ok _, .ok response =>
          if (⟨peer.nodeId, response.request.key⟩ : PendingKey) = pair then
            if succeeds
                (P2pWorkRetrieval.receive backend json peer envelope now
                  state) then
              log ++ [response]
            else
              []
          else
            log
      | _, _ => log
  | _ => log

/-- The responses for one request that a sequence of calls leaves valid. -/
def acceptedResponses
    (backend : Backend)
    (json : JsonBackend)
    (pair : PendingKey) :
    List RetrievalOp → P2pWorkRetrieval → List MiningWorkResponse →
      List MiningWorkResponse
  | [], _, log => log
  | op :: rest, state, log =>
      acceptedResponses backend json pair rest (op.attempt backend json state)
        (op.accepted backend json pair state log)

/-- The bytes of a sequence of chunks. -/
def chunkBytes (parts : List MiningWorkResponse) : List UInt8 :=
  parts.flatMap MiningWorkResponse.chunk

/-- Each chunk starts where the ones before it end. -/
def Consecutive (parts : List MiningWorkResponse) : Prop :=
  ∀ earlier part later, parts = earlier ++ part :: later →
    part.request.offset.toNat = (chunkBytes earlier).length

/-- A request holds the last accepted chunks, all of one total size. -/
def AssembledFrom (log : List MiningWorkResponse) (entry : Pending) : Prop :=
  ∃ parts,
    parts <:+ log ∧
    Consecutive parts ∧
    (∀ part ∈ parts, part.totalSize = entry.total ∧ part.totalSize ≠ 0) ∧
    chunkBytes parts = entry.bytes

/-- What every request of the table holds. -/
def Assembling
    (state : P2pWorkRetrieval)
    (logs : PendingKey → List MiningWorkResponse) :
    Prop :=
  ∀ (pair : PendingKey) (entry : Pending),
    state.pending[pair]? = some entry →
      (entry.finished = false → AssembledFrom (logs pair) entry) ∧
      (entry.finished = true → entry.bytes = [])

variable {state : P2pWorkRetrieval}
variable {logs : PendingKey → List MiningWorkResponse}

theorem consecutive_nil : Consecutive [] := by
  intro earlier part later split
  cases earlier <;> cases split

theorem consecutive_append
    {parts : List MiningWorkResponse}
    {response : MiningWorkResponse}
    (consecutive : Consecutive parts)
    (offset :
      response.request.offset.toNat = (chunkBytes parts).length) :
    Consecutive (parts ++ [response]) := by
  intro earlier part later split
  rcases List.eq_nil_or_concat later with rfl | ⟨others, last, rfl⟩
  · obtain ⟨rfl, same⟩ := List.append_inj' split rfl
    cases same
    exact offset
  · have cut : parts ++ [response] = (earlier ++ part :: others) ++ [last] := by
      rw [split]
      simp
    obtain ⟨front, _⟩ := List.append_inj' cut rfl
    exact consecutive earlier part others front

theorem live_assembling
    (assembling : Assembling state logs)
    (now : UInt64) :
    Assembling (live now state) logs := by
  intro pair entry found
  exact assembling pair entry (live_pending_iff.mp found).1

/-- The accepted chunks together with the one that continues them. -/
theorem assembledFrom_append
    {log : List MiningWorkResponse}
    {entry : Pending}
    {response : MiningWorkResponse}
    (assembled : AssembledFrom log entry)
    (continues : Continues response entry) :
    ∃ parts,
      parts <:+ log ∧
      Consecutive (parts ++ [response]) ∧
      (∀ part ∈ parts, part.totalSize = response.totalSize) ∧
      chunkBytes (parts ++ [response]) =
        (appendChunk response entry).bytes := by
  obtain ⟨parts, suffix, consecutive, sizes, bytes⟩ := assembled
  refine ⟨parts, suffix, ?_, ?_, ?_⟩
  · apply consecutive_append consecutive
    rw [bytes]
    exact continues.offset
  · intro part member
    obtain ⟨sameTotal, found⟩ := sizes part member
    rcases continues.total with zero | same
    · exact absurd (sameTotal.trans zero) found
    · exact sameTotal.trans same
  · simp only [chunkBytes, List.flatMap_append, appendChunk]
    rw [← bytes]
    simp [chunkBytes]

/-- A call that is no response for the request leaves its responses alone. -/
theorem accepted_of_unread
    {pair : PendingKey}
    {log : List MiningWorkResponse}
    {peer : P2pHandshake}
    {envelope : P2pEnvelope}
    {now : UInt64}
    (unread :
      checkPeer peer ≠ .ok () ∨
        ∀ response, parseMiningWorkResponse envelope ≠ .ok response) :
    RetrievalOp.accepted backend json pair state log
      (.receive peer envelope now) = log := by
  unfold RetrievalOp.accepted
  dsimp only
  split
  · rename_i passed response checked parsed
    rcases unread with incapable | unparsed
    · exact absurd checked incapable
    · exact absurd parsed (unparsed response)
  · rfl

theorem accepted_of_parsed
    {pair : PendingKey}
    {log : List MiningWorkResponse}
    {peer : P2pHandshake}
    {envelope : P2pEnvelope}
    {now : UInt64}
    {response : MiningWorkResponse}
    (capable : checkPeer peer = .ok ())
    (parsed : parseMiningWorkResponse envelope = .ok response) :
    RetrievalOp.accepted backend json pair state log
        (.receive peer envelope now) =
      if (⟨peer.nodeId, response.request.key⟩ : PendingKey) = pair then
        if succeeds (receive backend json peer envelope now state) then
          log ++ [response]
        else
          []
      else
        log := by
  unfold RetrievalOp.accepted
  dsimp only
  rw [capable, parsed]

/-- A call for one request leaves the responses for the others alone. -/
theorem accepted_of_other
    {pair : PendingKey}
    {log : List MiningWorkResponse}
    {peer : P2pHandshake}
    {envelope : P2pEnvelope}
    {now : UInt64}
    {response : MiningWorkResponse}
    (capable : checkPeer peer = .ok ())
    (parsed : parseMiningWorkResponse envelope = .ok response)
    (differs : pair ≠ ⟨peer.nodeId, response.request.key⟩) :
    RetrievalOp.accepted backend json pair state log
        (.receive peer envelope now) = log := by
  rw [accepted_of_parsed capable parsed, if_neg differs.symm]

/-- Replacing one request keeps what the others hold. -/
theorem withPending_assembling
    {changed : PendingKey → List MiningWorkResponse}
    {key : PendingKey}
    {written : Pending}
    (assembling : Assembling state logs)
    (unchanged : ∀ pair, pair ≠ key → changed pair = logs pair)
    (active : written.finished = false → AssembledFrom (changed key) written)
    (finished : written.finished = true → written.bytes = []) :
    Assembling (state.withPending key written) changed := by
  intro pair entry found
  rcases getElem?_insert_iff.mp found with ⟨rfl, rfl⟩ | ⟨differs, found⟩
  · exact ⟨active, finished⟩
  · rw [unchanged pair differs]
    exact assembling pair entry found

theorem receive_assembling
    (assembling : Assembling state logs)
    (peer : P2pHandshake)
    (envelope : P2pEnvelope)
    (now : UInt64) :
    Assembling (finalState (receive backend json peer envelope now state))
      fun pair => RetrievalOp.accepted backend json pair state (logs pair)
        (.receive peer envelope now) := by
  have step := @receive_step backend json peer envelope now state
  have alive := live_assembling assembling now
  have finishes :
      ∀ (response : MiningWorkResponse) (written : Pending),
        checkPeer peer = .ok () →
        parseMiningWorkResponse envelope = .ok response →
          Assembling
            ((live now state).withPending
              ⟨peer.nodeId, response.request.key⟩ (finish written))
            fun pair => RetrievalOp.accepted backend json pair state
              (logs pair) (.receive peer envelope now) := by
    intro response written capable parsed
    refine withPending_assembling alive
      (fun pair differs => accepted_of_other capable parsed differs) ?_ ?_
    · intro active
      cases active
    · intro _
      rfl
  generalize ran : receive backend json peer envelope now state = result
    at step
  cases step with
  | malformed thrown unread =>
      intro pair entry found
      dsimp only
      rw [accepted_of_unread unread]
      exact assembling pair entry found
  | unsolicited response thrown capable parsed inactive =>
      intro pair entry found
      by_cases same : pair = ⟨peer.nodeId, response.request.key⟩
      · subst pair
        have finished := inactive entry found
        refine ⟨fun active => ?_, (alive _ entry found).2⟩
        rw [active] at finished
        cases finished
      · dsimp only
        rw [accepted_of_other capable parsed same]
        exact alive pair entry found
  | refused response entry written thrown capable parsed =>
      exact finishes response written capable parsed
  | missing response entry written capable parsed requested active accepted =>
      rcases acceptChunk_eq_ok.mp accepted with
        ⟨_, _, _, rfl⟩ | ⟨_, _, _, _, wrong, _⟩ | ⟨_, _, _, _, _, wrong, _⟩
      · exact finishes response entry capable parsed
      · cases wrong
      · cases wrong
  | followup response entry written request capable parsed requested active
      accepted =>
      rcases acceptChunk_eq_ok.mp accepted with
        ⟨_, _, wrong, _⟩ | ⟨continues, rfl, _⟩ | ⟨_, _, _, _, _, wrong, _⟩
      · cases wrong
      · refine withPending_assembling alive
          (fun pair differs => accepted_of_other capable parsed differs) ?_ ?_
        · intro _
          obtain ⟨parts, suffix, consecutive, sizes, bytes⟩ :=
            assembledFrom_append ((alive _ entry requested).1 active) continues
          refine ⟨parts ++ [response], ?_, consecutive, ?_, bytes⟩
          · rw [accepted_of_parsed capable parsed, if_pos rfl, ran]
            obtain ⟨front, whole⟩ := suffix
            exact ⟨front, by rw [← List.append_assoc, whole]; rfl⟩
          · intro part member
            rcases List.mem_append.mp member with earlier | new
            · have same := sizes part earlier
              exact ⟨same, same ▸ continues.found⟩
            · cases List.mem_singleton.mp new
              exact ⟨rfl, continues.found⟩
        · intro finished
          rw [show (appendChunk response entry).finished = entry.finished
            from rfl, active] at finished
          cases finished
      · cases wrong
  | complete response entry written id capable parsed =>
      exact finishes response written capable parsed

theorem begin_assembling
    (assembling : Assembling state logs)
    (peer : P2pHandshake)
    (key : MiningWorkKey)
    (now : UInt64) :
    Assembling (finalState (begin peer key now state)) logs := by
  have step := begin_step peer key now state
  have alive := live_assembling assembling now
  generalize begin peer key now state = result at step
  cases step with
  | unable => exact assembling
  | malformed thrown => exact assembling
  | declined => exact alive
  | requested request slots capable made absent notReceived few room =>
      intro pair entry found
      rcases getElem?_insert_iff.mp found with ⟨rfl, rfl⟩ | ⟨_, found⟩
      · refine ⟨fun _ => ⟨[], List.nil_suffix, consecutive_nil, ?_, rfl⟩,
          fun _ => rfl⟩
        intro part member
        cases member
      · rcases room with ⟨_, rfl⟩ | ⟨reused, _, _, _, rfl⟩
        · exact alive pair entry found
        · exact alive pair entry (getElem?_erase_iff.mp found).2

theorem attempt_assembling
    (assembling : Assembling state logs)
    (op : RetrievalOp) :
    Assembling (op.attempt backend json state)
      fun pair => op.accepted backend json pair state (logs pair) := by
  cases op with
  | begin peer key now => exact begin_assembling assembling peer key now
  | receive peer envelope now =>
      exact receive_assembling assembling peer envelope now
  | takeUntrusted key =>
      simp only [RetrievalOp.attempt, takeUntrusted, get_bind_apply]
      cases state.received[key]? with
      | none => exact assembling
      | some bytes => exact assembling
  | rememberLocal proposal =>
      intro pair entry found
      simp only [RetrievalOp.attempt] at found
      rw [(rememberLocal_frame proposal).1] at found
      exact assembling pair entry found

/-- Over every sequence of calls, requests hold the responses left valid. -/
theorem attemptRetrieval_assembling
    (assembling : Assembling state logs)
    (ops : List RetrievalOp) :
    Assembling (attemptRetrieval backend json ops state)
      fun pair => acceptedResponses backend json pair ops state
        (logs pair) := by
  induction ops generalizing state logs with
  | nil => exact assembling
  | cons op rest inductionHypothesis =>
      exact inductionHypothesis (attempt_assembling assembling op)

/-- A reported piece is made of the responses left valid and the last one. -/
theorem receive_assembles
    {peer : P2pHandshake}
    {envelope : P2pEnvelope}
    {now : UInt64}
    {report : MiningWorkReceiveResult}
    {final : P2pWorkRetrieval}
    {id : Hash256}
    (assembling : Assembling state logs)
    (received :
      receive backend json peer envelope now state = .ok report final)
    (reported : report.receivedId = some id) :
    ∃ response parts proposal,
      parseMiningWorkResponse envelope = .ok response ∧
      parts <:+ logs ⟨peer.nodeId, response.request.key⟩ ∧
      Consecutive (parts ++ [response]) ∧
      (∀ part ∈ parts, part.totalSize = response.totalSize) ∧
      final.received[response.request.key]? =
        some (chunkBytes (parts ++ [response])) ∧
      deserializeP2pMiningContextPayload json
        (chunkBytes (parts ++ [response])) = .ok proposal ∧
      checkedKey backend proposal = .ok response.request.key ∧
      p2pMiningContextId backend json proposal = .ok id := by
  have step := @receive_step backend json peer envelope now state
  rw [received] at step
  cases step with
  | missing => cases reported
  | followup => cases reported
  | complete response entry written found capable parsed requested active
      accepted =>
      cases reported
      rcases acceptChunk_eq_ok.mp accepted with
        ⟨_, _, wrong, _⟩ | ⟨_, _, _, _, wrong, _⟩ |
          ⟨continues, rfl, _, proposal, _, same, decoded, derived, computed⟩
      · cases wrong
      · cases wrong
      · cases same
        obtain ⟨parts, suffix, consecutive, sizes, bytes⟩ :=
          assembledFrom_append
            ((live_assembling assembling now _ entry requested).1 active)
            continues
        refine ⟨response, parts, proposal, parsed, suffix, consecutive, sizes,
          ?_, ?_, derived, computed⟩
        · rw [bytes]
          exact getElem?_storeReceived
        · rw [bytes]
          exact decoded

/-- A response that is refused leaves no bytes behind. -/
theorem receive_refuses
    {peer : P2pHandshake}
    {envelope : P2pEnvelope}
    {now : UInt64}
    {thrown : Exception}
    {final : P2pWorkRetrieval}
    (assembling : Assembling state logs)
    (failed :
      receive backend json peer envelope now state = .error thrown final) :
    final.received = state.received ∧
      (∀ (pair : PendingKey) (entry : Pending),
        final.pending[pair]? = some entry →
          state.pending[pair]? = some entry ∨
            (entry.finished = true ∧ entry.bytes = [])) ∧
      (∀ response, checkPeer peer = .ok () →
        parseMiningWorkResponse envelope = .ok response →
          ∀ entry,
            final.pending[
              (⟨peer.nodeId, response.request.key⟩ : PendingKey)]? =
                some entry →
              entry.finished = true ∧ entry.bytes = []) := by
  have step := @receive_step backend json peer envelope now state
  have alive := live_assembling assembling now
  rw [failed] at step
  cases step with
  | malformed _ unread =>
      refine ⟨rfl, fun pair entry found => Or.inl found, ?_⟩
      intro response capable parsed
      rcases unread with incapable | unparsed
      · exact absurd capable incapable
      · exact absurd parsed (unparsed response)
  | unsolicited response _ capable parsed inactive =>
      refine ⟨rfl, ?_, ?_⟩
      · intro pair entry found
        exact Or.inl (live_pending_iff.mp found).1
      · intro other _ reparsed entry found
        rw [parsed] at reparsed
        cases reparsed
        have finished := inactive entry found
        exact ⟨finished, (alive _ entry found).2 finished⟩
  | refused response entry written _ capable parsed =>
      refine ⟨rfl, ?_, ?_⟩
      · intro pair other found
        rcases getElem?_insert_iff.mp found with ⟨_, rfl⟩ | ⟨_, found⟩
        · exact Or.inr ⟨rfl, rfl⟩
        · exact Or.inl (live_pending_iff.mp found).1
      · intro other _ reparsed found stored
        rw [parsed] at reparsed
        cases reparsed
        rcases getElem?_insert_iff.mp stored with ⟨_, rfl⟩ | ⟨differs, _⟩
        · exact ⟨rfl, rfl⟩
        · exact absurd rfl differs

end Assembly

/--
A piece of work that a responder holds arrives whole after one reply per chunk and
can be taken.  Whatever arrives, a reported piece is made of consecutive chunks
that one peer sent for one key under one total size, and a response that is
refused leaves no bytes behind.
-/
theorem workRetrieval_delivers
    (backend : Backend)
    (json : JsonBackend)
    (archive : MiningWorkArchive) :
    (∀ (peer requester : P2pHandshake) (key : MiningWorkKey)
      (payload : List UInt8) (started : UInt64)
      (before after : P2pWorkRetrieval) (request : P2pEnvelope)
      (events : List TransferEvent) (responder : P2pWorkRetrieval)
      (now : UInt64),
      PayloadOf backend json key payload →
      begin peer key started before = .ok (some request) after →
      checkPeer requester = .ok () →
      (∀ event ∈ events,
        event.Allowed archive ⟨peer.nodeId, key⟩ payload started) →
      events.countP TransferEvent.isReply + 1 =
        payload.length ⌈/⌉ kMiningWorkChunkSize →
      HoldsPayload archive responder key payload →
      InLifetime started now →
      ∃ transfer envelope final,
        events.foldlM (TransferEvent.run backend json archive peer requester)
            { state := after, latest := request } = .ok transfer ∧
        (∀ report ∈ transfer.reports, report.receivedId = none) ∧
        answer archive responder requester transfer.latest = .ok envelope ∧
        receive backend json peer envelope now transfer.state =
          .ok { receivedId := some (backend.cnFastHash payload) } final ∧
        ∀ later,
          completions backend json later final = [] →
          (∀ op ∈ later, op ≠ .takeUntrusted key) →
          returned (takeUntrusted key
              (attemptRetrieval backend json later final)) =
            some (some payload)) ∧
    (∀ (start : P2pWorkRetrieval) (ops : List RetrievalOp)
      (peer : P2pHandshake) (envelope : P2pEnvelope) (now : UInt64),
      start.pending = ∅ →
      start.received = ∅ →
      (∀ report final id,
        receive backend json peer envelope now
            (attemptRetrieval backend json ops start) = .ok report final →
        report.receivedId = some id →
        ∃ response parts proposal,
          parseMiningWorkResponse envelope = .ok response ∧
          parts <:+ acceptedResponses backend json
            ⟨peer.nodeId, response.request.key⟩ ops start [] ∧
          Consecutive (parts ++ [response]) ∧
          (∀ part ∈ parts, part.totalSize = response.totalSize) ∧
          final.received[response.request.key]? =
            some (chunkBytes (parts ++ [response])) ∧
          deserializeP2pMiningContextPayload json
            (chunkBytes (parts ++ [response])) = .ok proposal ∧
          checkedKey backend proposal = .ok response.request.key ∧
          p2pMiningContextId backend json proposal = .ok id) ∧
      (∀ thrown final,
        receive backend json peer envelope now
            (attemptRetrieval backend json ops start) = .error thrown final →
        final.received =
            (attemptRetrieval backend json ops start).received ∧
          (∀ (pair : PendingKey) (entry : Pending),
            final.pending[pair]? = some entry →
              (attemptRetrieval backend json ops start).pending[pair]? =
                  some entry ∨
                (entry.finished = true ∧ entry.bytes = [])) ∧
          (∀ response, checkPeer peer = .ok () →
            parseMiningWorkResponse envelope = .ok response →
              ∀ entry,
                final.pending[
                  (⟨peer.nodeId, response.request.key⟩ : PendingKey)]? =
                    some entry →
                  entry.finished = true ∧ entry.bytes = []))) := by
  refine ⟨?_, ?_⟩
  · intro peer requester key payload started before after request events
      responder now valid begun asked allowed oneLeft holds inTime
    obtain ⟨transfer, envelope, final, ran, silent, answered, received,
      stored⟩ :=
      transfer_delivers valid begun asked events allowed oneLeft holds inTime
    refine ⟨transfer, envelope, final, ran, silent, answered, received, ?_⟩
    intro later quiet notTaken
    have kept := attemptRetrieval_keeps_received later stored quiet notTaken
    unfold takeUntrusted
    rw [get_bind_apply, kept]
    rfl
  · intro start ops peer envelope now noRequests nothingReceived
    have fresh : Assembling start fun _ => [] := by
      intro pair entry found
      simp [noRequests] at found
    have assembling := @attemptRetrieval_assembling backend json _ _ fresh ops
    exact ⟨fun report final id received reported =>
        receive_assembles assembling received reported,
      fun thrown final failed => receive_refuses assembling failed⟩

/-- Work whose text is filled up with blanks to two chunks. -/
def sampleLongWork : P2pMiningContextProposal :=
  sampleWorkProposal kMiningWorkChunkSize

/-- The archive of a node that has the long work only. -/
def sampleArchive : MiningWorkArchive :=
  fun _ => .ok (miningContextBytes sampleLongWork)

def sampleResponder : P2pWorkRetrieval where
  localWork := (∅ : Std.ExtTreeMap MiningWorkKey Hash256).insert
    sampleWorkKey 1

/-- The request for the first chunk of the long work. -/
def sampleRetrievalRequest : P2pEnvelope where
  type := .miningWorkRequest
  payload := miningWorkRequestBytes { key := sampleWorkKey }

/-- Another peer, who turns out not to have the work. -/
def sampleOtherPeer : P2pHandshake where
  nodeId := 8
  capabilities := kP2pCapabilityWorkRetrieval

/-- The other peer is asked for the same work around the first reply. -/
def sampleTransferEvents : List TransferEvent :=
  [ .other (.begin sampleOtherPeer sampleWorkKey 105)
  , .reply sampleResponder 110
  , .other (.receive sampleOtherPeer (sampleWorkResponse sampleWorkKey [])
      120) ]

theorem length_sampleBlock : (sampleBlock 0).length = 1084 := by
  decide +kernel

theorem length_sampleLongWork :
    (miningContextBytes sampleLongWork).length =
      1220 + kMiningWorkChunkSize := by
  rw [length_miningContextBytes]
  simp [sampleLongWork, sampleWorkProposal, length_sampleBlock,
    kP2pMiningContextFixedPayloadSize]
  omega

theorem sampleLongWork_payload :
    PayloadOf spellingBackend sampleTgcJson sampleWorkKey
      (miningContextBytes sampleLongWork) := by
  refine ⟨sampleLongWork,
    deserializeP2pMiningContextPayload_eq_ok.mpr
      (serializeP2pMiningContextPayload_eq_ok.mpr ⟨?_, rfl⟩), ?_⟩
  · have valid :=
      @requireValidTgcJson_sampleTgcText kMiningWorkChunkSize (by decide)
    have nonempty : sampleBlock 0 ≠ [] := by decide +kernel
    unfold requireProposalSerializable
    simp only [sampleLongWork, sampleWorkProposal, valid]
    simp [nonempty, length_sampleBlock, difficulty128IsZero, kP2pMaxPayloadSize,
      kP2pMiningContextFixedPayloadSize, kMiningWorkChunkSize]
  · decide +kernel

/-- The long work arrives in two replies while another peer is asked for it. -/
theorem sampleWork_delivered :
    ∃ after transfer envelope final,
      begin sampleWorkPeer sampleWorkKey 100 {} =
        .ok (some sampleRetrievalRequest) after ∧
      sampleTransferEvents.foldlM
          (TransferEvent.run spellingBackend sampleTgcJson sampleArchive
            sampleWorkPeer sampleWorkPeer)
          { state := after, latest := sampleRetrievalRequest } = .ok transfer ∧
      answer sampleArchive sampleResponder sampleWorkPeer transfer.latest =
        .ok envelope ∧
      receive spellingBackend sampleTgcJson sampleWorkPeer envelope 130
          transfer.state =
        .ok { receivedId := some (spellingBackend.cnFastHash
          (miningContextBytes sampleLongWork)) } final ∧
      returned (takeUntrusted sampleWorkKey final) =
        some (some (miningContextBytes sampleLongWork)) := by
  have begun : begin sampleWorkPeer sampleWorkKey 100 {} =
      .ok (some sampleRetrievalRequest) _ := eq_ok_of_returned (by decide +kernel)
  have holds :
      HoldsPayload sampleArchive sampleResponder sampleWorkKey
        (miningContextBytes sampleLongWork) :=
    ⟨1, by decide +kernel, rfl⟩
  have allowed :
      ∀ event ∈ sampleTransferEvents,
        event.Allowed sampleArchive ⟨sampleWorkPeer.nodeId, sampleWorkKey⟩
          (miningContextBytes sampleLongWork) 100 := by
    simp only [sampleTransferEvents, List.forall_mem_cons]
    refine ⟨?_, ⟨holds, ?_⟩, ⟨?_, ?_⟩, by simp⟩
    · exact ⟨by decide, by decide⟩
    · exact ⟨by decide, by decide⟩
    · exact ⟨by decide, by decide⟩
    · intro response _ same
      have nodes : (8 : NodeId) = 7 := congrArg PendingKey.nodeId same
      exact absurd nodes (by decide)
  have twoChunks :
      sampleTransferEvents.countP TransferEvent.isReply + 1 =
        (miningContextBytes sampleLongWork).length ⌈/⌉
          kMiningWorkChunkSize := by
    rw [length_sampleLongWork]
    decide
  obtain ⟨transfer, envelope, final, ran, _, answered, received, taken⟩ :=
    (workRetrieval_delivers spellingBackend sampleTgcJson sampleArchive).1
      sampleWorkPeer sampleWorkPeer sampleWorkKey _ 100 {} _ _
      sampleTransferEvents sampleResponder 130 sampleLongWork_payload begun
      (by decide +kernel) allowed twoChunks holds ⟨by decide, by decide⟩
  exact ⟨_, transfer, envelope, final, begun, ran, answered, received,
    taken [] rfl (by simp)⟩

end ZanoP2pool
