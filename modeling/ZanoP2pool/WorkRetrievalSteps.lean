import ZanoP2pool.Foundation.Counting
import ZanoP2pool.P2pWireFormat
import ZanoP2pool.P2pWorkRetrieval

namespace ZanoP2pool

open Foundation

/-!
# Steps of work retrieval

What one call on the retrieval object can do to its state and return, the calls
that throw included.
-/

variable {backend : Backend} {json : JsonBackend}

namespace P2pWorkRetrieval

/-- The state without the requests that have expired. -/
def live (now : UInt64) (state : P2pWorkRetrieval) : P2pWorkRetrieval :=
  { state with
    pending := state.pending.filter fun _ entry => !expired now entry }

theorem expire_apply
    (now : UInt64)
    (state : P2pWorkRetrieval) :
    expire now state = .ok ⟨⟩ (live now state) :=
  rfl

@[simp] theorem live_received
    (now : UInt64)
    (state : P2pWorkRetrieval) :
    (live now state).received = state.received :=
  rfl

theorem live_pending_iff
    {now : UInt64}
    {state : P2pWorkRetrieval}
    {key : PendingKey}
    {entry : Pending} :
    (live now state).pending[key]? = some entry ↔
      state.pending[key]? = some entry ∧ expired now entry = false := by
  unfold live
  rw [getElem?_filter_iff, Bool.not_eq_true']

section Chunks

variable {response : MiningWorkResponse} {entry written : Pending}

/-- A chunk that continues a request: it fits the bytes and the total so far. -/
structure Continues (response : MiningWorkResponse) (entry : Pending) :
    Prop where
  offset : response.request.offset.toNat = entry.bytes.length
  found : response.totalSize ≠ 0
  total : entry.total = 0 ∨ entry.total = response.totalSize

/-- The entry after a chunk was added. -/
def appendChunk (response : MiningWorkResponse) (entry : Pending) : Pending :=
  { entry with
    total := response.totalSize
    bytes := entry.bytes ++ response.chunk }

theorem acceptChunk_of_continues
    (continues : Continues response entry) :
    acceptChunk backend json response entry =
      (if (entry.bytes ++ response.chunk).length <
          response.totalSize.toNat then do
        let request ← orThrow (makeMiningWorkRequest
          { key := response.request.key
            offset := UInt32.ofNat
              (entry.bytes ++ response.chunk).length })
        return .followup request
      else do
        let proposal ← orThrow (deserializeP2pMiningContextPayload json
          (entry.bytes ++ response.chunk))
        let key ← orThrow (checkedKey backend proposal)
        if key ≠ response.request.key then
          throw (.runtimeError
            "work evidence does not match requested header/height")
        else
          let id ← orThrow (p2pMiningContextId backend json proposal)
          return .complete id : EStateM Exception Pending ChunkOutcome)
        (appendChunk response entry) := by
  unfold acceptChunk
  rw [get_bind_apply, if_neg (not_not.mpr continues.offset),
    if_neg continues.found, if_neg (not_not.mpr continues.total)]
  rfl

/-- A chunk that does not continue the request is refused. -/
theorem acceptChunk_eq_error
    (fits : response.request.offset.toNat = entry.bytes.length →
      response.totalSize ≠ 0)
    (breaks : ¬ Continues response entry) :
    ∃ thrown,
      acceptChunk backend json response entry = .error thrown entry := by
  unfold acceptChunk
  rw [get_bind_apply]
  by_cases offset : response.request.offset.toNat = entry.bytes.length
  · have found := fits offset
    have total : ¬ (entry.total = 0 ∨ entry.total = response.totalSize) :=
      fun total => breaks ⟨offset, found, total⟩
    rw [if_neg (not_not.mpr offset), if_neg found, if_pos total]
    exact ⟨_, rfl⟩
  · rw [if_pos offset]
    exact ⟨_, rfl⟩

theorem acceptChunk_of_missing
    (offset : response.request.offset.toNat = entry.bytes.length)
    (missing : response.totalSize = 0) :
    acceptChunk backend json response entry =
      .ok .missing { entry with finished := true, bytes := [] } := by
  unfold acceptChunk
  rw [get_bind_apply, if_neg (not_not.mpr offset), if_pos missing]
  rfl

/-- What an accepted chunk says about the entry before and after it. -/
theorem acceptChunk_eq_ok
    {outcome : ChunkOutcome} :
    acceptChunk backend json response entry = .ok outcome written ↔
      (response.request.offset.toNat = entry.bytes.length ∧
        response.totalSize = 0 ∧ outcome = .missing ∧
        written = { entry with finished := true, bytes := [] }) ∨
      (Continues response entry ∧
        written = appendChunk response entry ∧
        written.bytes.length < response.totalSize.toNat ∧
        ∃ request, outcome = .followup request ∧
          makeMiningWorkRequest
            { key := response.request.key
              offset := UInt32.ofNat written.bytes.length } =
            .ok request) ∨
      (Continues response entry ∧
        written = appendChunk response entry ∧
        response.totalSize.toNat ≤ written.bytes.length ∧
        ∃ proposal id, outcome = .complete id ∧
          deserializeP2pMiningContextPayload json written.bytes =
            .ok proposal ∧
          checkedKey backend proposal = .ok response.request.key ∧
          p2pMiningContextId backend json proposal = .ok id) := by
  by_cases continues : Continues response entry
  · have found : ¬ response.totalSize = 0 := continues.found
    rw [acceptChunk_of_continues continues]
    by_cases more : (entry.bytes ++ response.chunk).length <
        response.totalSize.toNat
    · have notDone : ¬ response.totalSize.toNat ≤
          (appendChunk response entry).bytes.length := not_le.mpr more
      rw [if_pos more, bind_eq_ok]
      constructor
      · rintro ⟨request, middle, ran, returned⟩
        obtain ⟨made, rfl⟩ := orThrow_eq_ok.mp ran
        cases returned
        exact Or.inr (Or.inl ⟨continues, rfl, more, request, rfl, made⟩)
      · rintro (⟨_, missing, _⟩ | ⟨_, rfl, _, request, rfl, made⟩ |
          ⟨_, rfl, done, _⟩)
        · exact absurd missing found
        · exact ⟨request, _, orThrow_eq_ok.mpr ⟨made, rfl⟩, rfl⟩
        · exact absurd done notDone
    · have done : response.totalSize.toNat ≤
          (appendChunk response entry).bytes.length := not_lt.mp more
      rw [if_neg more, bind_eq_ok]
      constructor
      · rintro ⟨proposal, middle, ran1, rest⟩
        obtain ⟨decoded, rfl⟩ := orThrow_eq_ok.mp ran1
        obtain ⟨key, middle, ran2, rest⟩ := bind_eq_ok.mp rest
        obtain ⟨derived, rfl⟩ := orThrow_eq_ok.mp ran2
        by_cases same : key = response.request.key
        · rw [if_neg (not_not.mpr same)] at rest
          obtain ⟨id, middle, ran3, returned⟩ := bind_eq_ok.mp rest
          obtain ⟨computed, rfl⟩ := orThrow_eq_ok.mp ran3
          cases returned
          subst key
          exact Or.inr (Or.inr ⟨continues, rfl, done, proposal, id, rfl,
            decoded, derived, computed⟩)
        · rw [if_pos same] at rest
          cases rest
      · rintro (⟨_, missing, _⟩ | ⟨_, rfl, short, _⟩ |
          ⟨_, rfl, _, proposal, id, rfl, decoded, derived, computed⟩)
        · exact absurd missing found
        · exact absurd short more
        · refine ⟨proposal, _, orThrow_eq_ok.mpr ⟨decoded, rfl⟩, ?_⟩
          refine bind_eq_ok.mpr ⟨_, _, orThrow_eq_ok.mpr ⟨derived, rfl⟩, ?_⟩
          rw [if_neg (not_not.mpr rfl)]
          exact bind_eq_ok.mpr
            ⟨id, _, orThrow_eq_ok.mpr ⟨computed, rfl⟩, rfl⟩
  · by_cases missing :
        response.request.offset.toNat = entry.bytes.length ∧
          response.totalSize = 0
    · rw [acceptChunk_of_missing missing.1 missing.2]
      constructor
      · intro returned
        cases returned
        exact Or.inl ⟨missing.1, missing.2, rfl, rfl⟩
      · rintro (⟨_, _, rfl, rfl⟩ | ⟨accepted, _⟩ | ⟨accepted, _⟩)
        · rfl
        · exact absurd accepted continues
        · exact absurd accepted continues
    · obtain ⟨thrown, failed⟩ := @acceptChunk_eq_error backend json
        response entry (fun offset zero => missing ⟨offset, zero⟩) continues
      rw [failed]
      constructor
      · intro returned
        cases returned
      · rintro (⟨offset, zero, _⟩ | ⟨accepted, _⟩ | ⟨accepted, _⟩)
        · exact absurd ⟨offset, zero⟩ missing
        · exact absurd accepted continues
        · exact absurd accepted continues

end Chunks

/-- A finished request keeps no bytes. -/
def finish (entry : Pending) : Pending :=
  { entry with finished := true, bytes := [] }

/-- The state after the request of a peer for a key was replaced. -/
def withPending
    (state : P2pWorkRetrieval)
    (key : PendingKey)
    (entry : Pending) :
    P2pWorkRetrieval :=
  { state with pending := state.pending.insert key entry }

/-- What a call of `receive` can do and return. -/
inductive ReceiveStep
    (backend : Backend)
    (json : JsonBackend)
    (peer : P2pHandshake)
    (envelope : P2pEnvelope)
    (now : UInt64)
    (state : P2pWorkRetrieval) :
    EStateM.Result Exception P2pWorkRetrieval MiningWorkReceiveResult → Prop
  | malformed
      (thrown : Exception)
      (unread :
        checkPeer peer ≠ .ok () ∨
          ∀ response, parseMiningWorkResponse envelope ≠ .ok response) :
      ReceiveStep backend json peer envelope now state (.error thrown state)
  | unsolicited
      (response : MiningWorkResponse)
      (thrown : Exception)
      (capable : checkPeer peer = .ok ())
      (parsed : parseMiningWorkResponse envelope = .ok response)
      (inactive :
        ∀ entry,
          (live now state).pending[
              (⟨peer.nodeId, response.request.key⟩ : PendingKey)]? =
            some entry → entry.finished = true) :
      ReceiveStep backend json peer envelope now state
        (.error thrown (live now state))
  | refused
      (response : MiningWorkResponse)
      (entry written : Pending)
      (thrown : Exception)
      (capable : checkPeer peer = .ok ())
      (parsed : parseMiningWorkResponse envelope = .ok response)
      (requested :
        (live now state).pending[
          (⟨peer.nodeId, response.request.key⟩ : PendingKey)]? = some entry)
      (active : entry.finished = false)
      (failed :
        acceptChunk backend json response entry = .error thrown written) :
      ReceiveStep backend json peer envelope now state
        (.error thrown ((live now state).withPending
          ⟨peer.nodeId, response.request.key⟩ (finish written)))
  | missing
      (response : MiningWorkResponse)
      (entry written : Pending)
      (capable : checkPeer peer = .ok ())
      (parsed : parseMiningWorkResponse envelope = .ok response)
      (requested :
        (live now state).pending[
          (⟨peer.nodeId, response.request.key⟩ : PendingKey)]? = some entry)
      (active : entry.finished = false)
      (accepted :
        acceptChunk backend json response entry = .ok .missing written) :
      ReceiveStep backend json peer envelope now state
        (.ok {} ((live now state).withPending
          ⟨peer.nodeId, response.request.key⟩ written))
  | followup
      (response : MiningWorkResponse)
      (entry written : Pending)
      (request : P2pEnvelope)
      (capable : checkPeer peer = .ok ())
      (parsed : parseMiningWorkResponse envelope = .ok response)
      (requested :
        (live now state).pending[
          (⟨peer.nodeId, response.request.key⟩ : PendingKey)]? = some entry)
      (active : entry.finished = false)
      (accepted :
        acceptChunk backend json response entry =
          .ok (.followup request) written) :
      ReceiveStep backend json peer envelope now state
        (.ok { followup := some request } ((live now state).withPending
          ⟨peer.nodeId, response.request.key⟩ written))
  | complete
      (response : MiningWorkResponse)
      (entry written : Pending)
      (id : Hash256)
      (capable : checkPeer peer = .ok ())
      (parsed : parseMiningWorkResponse envelope = .ok response)
      (requested :
        (live now state).pending[
          (⟨peer.nodeId, response.request.key⟩ : PendingKey)]? = some entry)
      (active : entry.finished = false)
      (accepted :
        acceptChunk backend json response entry =
          .ok (.complete id) written) :
      ReceiveStep backend json peer envelope now state
        (.ok { receivedId := some id }
          { (live now state).withPending
              ⟨peer.nodeId, response.request.key⟩ (finish written) with
            received := storeReceived state.received response.request.key
              written.bytes })

/-- What a chunk for an active request makes of the whole state. -/
def settleChunk
    (state : P2pWorkRetrieval)
    (key : PendingKey) :
    EStateM.Result Exception Pending ChunkOutcome →
      EStateM.Result Exception P2pWorkRetrieval MiningWorkReceiveResult
  | .error thrown written =>
      .error thrown (state.withPending key (finish written))
  | .ok .missing written => .ok {} (state.withPending key written)
  | .ok (.followup request) written =>
      .ok { followup := some request } (state.withPending key written)
  | .ok (.complete id) written =>
      .ok { receivedId := some id }
        { state.withPending key (finish written) with
          received := storeReceived state.received key.key written.bytes }

section Receive

variable {peer : P2pHandshake} {envelope : P2pEnvelope} {now : UInt64}
variable {state : P2pWorkRetrieval} {response : MiningWorkResponse}

/-- A response from a capable peer is looked up among the live requests. -/
theorem receive_of_parsed
    (capable : checkPeer peer = .ok ())
    (parsed : parseMiningWorkResponse envelope = .ok response) :
    receive backend json peer envelope now state =
      match (live now state).pending[
          (⟨peer.nodeId, response.request.key⟩ : PendingKey)]? with
      | none =>
          .error (.runtimeError "unsolicited/expired work response")
            (live now state)
      | some entry =>
          if entry.finished then
            .error (.runtimeError "unsolicited/expired work response")
              (live now state)
          else
            settleChunk (live now state) ⟨peer.nodeId, response.request.key⟩
              (acceptChunk backend json response entry) := by
  unfold receive
  rw [capable, bind_of_ok (orThrow_ok () state), parsed,
    bind_of_ok (orThrow_ok response state),
    bind_of_ok (expire_apply now state), get_bind_apply]
  cases (live now state).pending[
    (⟨peer.nodeId, response.request.key⟩ : PendingKey)]? with
  | none => rfl
  | some entry =>
      change (if entry.finished = true then _ else _ : RetrievalM _) _ =
        if entry.finished = true then _ else
          settleChunk _ _ (acceptChunk backend json response entry)
      cases active : entry.finished with
      | true => rfl
      | false =>
          rw [if_neg Bool.false_ne_true, if_neg Bool.false_ne_true]
          cases acceptChunk backend json response entry with
          | error thrown written => rfl
          | ok outcome written => cases outcome <;> rfl

/-- Every call of `receive` is one of these steps. -/
theorem receive_step
    (peer : P2pHandshake)
    (envelope : P2pEnvelope)
    (now : UInt64)
    (state : P2pWorkRetrieval) :
    ReceiveStep backend json peer envelope now state
      (receive backend json peer envelope now state) := by
  cases checked : checkPeer peer with
  | error thrown =>
      unfold receive
      rw [checked]
      exact .malformed thrown (Or.inl (by simp [checked]))
  | ok passed =>
      cases parsed : parseMiningWorkResponse envelope with
      | error thrown =>
          unfold receive
          rw [checked, parsed]
          exact .malformed thrown (Or.inr (by simp [parsed]))
      | ok response =>
          rw [receive_of_parsed checked parsed]
          cases requested : (live now state).pending[
            (⟨peer.nodeId, response.request.key⟩ : PendingKey)]? with
          | none =>
              exact .unsolicited response _ checked parsed
                (by simp [requested])
          | some entry =>
              dsimp only
              cases active : entry.finished with
              | true =>
                  exact .unsolicited response _ checked parsed
                    (by simp [requested, active])
              | false =>
                  rw [if_neg Bool.false_ne_true]
                  cases accepted : acceptChunk backend json response entry with
                  | error thrown written =>
                      exact .refused response entry written thrown checked
                        parsed requested active accepted
                  | ok outcome written =>
                      cases outcome with
                      | missing =>
                          exact .missing response entry written checked parsed
                            requested active accepted
                      | followup request =>
                          exact .followup response entry written request
                            checked parsed requested active accepted
                      | complete id =>
                          exact .complete response entry written id checked
                            parsed requested active accepted

end Receive

/-- What a call of `begin` can do and return. -/
inductive BeginStep
    (peer : P2pHandshake)
    (key : MiningWorkKey)
    (now : UInt64)
    (state : P2pWorkRetrieval) :
    EStateM.Result Exception P2pWorkRetrieval (Option P2pEnvelope) → Prop
  | unable :
      BeginStep peer key now state (.ok none state)
  | malformed
      (thrown : Exception) :
      BeginStep peer key now state (.error thrown state)
  | declined :
      BeginStep peer key now state (.ok none (live now state))
  | requested
      (request : P2pEnvelope)
      (slots : Std.ExtTreeMap PendingKey Pending)
      (capable : checkPeer peer = .ok ())
      (made : makeMiningWorkRequest { key, offset := 0 } = .ok request)
      (absent :
        (live now state).pending[
          (⟨peer.nodeId, key⟩ : PendingKey)]? = none)
      (notReceived : state.received[key]? = none)
      (few : activeRequests (live now state).pending peer.nodeId < 2)
      (room :
        ((live now state).pending.size < kMiningWorkMaxPending ∧
          slots = (live now state).pending) ∨
          ∃ reused entry,
            (live now state).pending[reused]? = some entry ∧
            entry.finished = true ∧
            slots = (live now state).pending.erase reused) :
      BeginStep peer key now state
        (.ok (some request)
          { live now state with
            pending := slots.insert ⟨peer.nodeId, key⟩ { started := now } })

/-- The better of two candidates is one of them, and finished. -/
theorem olderFinished_cases
    {reusable : Option (PendingKey × Pending)}
    {item found : PendingKey × Pending}
    (chosen : olderFinished reusable item = some found) :
    reusable = some found ∨ (found = item ∧ item.2.finished = true) := by
  unfold olderFinished at chosen
  cases finished : item.2.finished with
  | false =>
      rw [finished] at chosen
      exact Or.inl chosen
  | true =>
      rw [finished] at chosen
      cases reusable with
      | none =>
          cases chosen
          exact Or.inr ⟨rfl, rfl⟩
      | some best =>
          change (if item.2.started < best.2.started then some item
            else some best) = some found at chosen
          split at chosen
          · cases chosen
            exact Or.inr ⟨rfl, rfl⟩
          · exact Or.inl chosen

/-- The oldest finished request is a finished request of the table. -/
theorem oldestFinished_eq_some
    {pending : Std.ExtTreeMap PendingKey Pending}
    {found : PendingKey × Pending}
    (chosen : oldestFinished pending = some found) :
    pending[found.1]? = some found.2 ∧ found.2.finished = true := by
  have member :
      ∀ (items : List (PendingKey × Pending)) (start : Option _),
        items.foldl olderFinished start = some found →
          start = some found ∨ (found ∈ items ∧ found.2.finished = true) := by
    intro items
    induction items with
    | nil =>
        intro start chosen
        exact Or.inl chosen
    | cons item rest inductionHypothesis =>
        intro start chosen
        rcases inductionHypothesis _ chosen with here | ⟨later, finished⟩
        · rcases olderFinished_cases here with before | ⟨rfl, finished⟩
          · exact Or.inl before
          · exact Or.inr ⟨List.mem_cons_self, finished⟩
        · exact Or.inr ⟨List.mem_cons_of_mem _ later, finished⟩
  rcases member _ _ chosen with impossible | ⟨listed, finished⟩
  · cases impossible
  · exact ⟨Std.ExtTreeMap.mem_toList_iff_getElem?_eq_some.mp listed, finished⟩

/-- Every call of `begin` is one of these steps. -/
theorem begin_step
    (peer : P2pHandshake)
    (key : MiningWorkKey)
    (now : UInt64)
    (state : P2pWorkRetrieval) :
    BeginStep peer key now state (begin peer key now state) := by
  unfold begin
  by_cases capable : peer.capabilities &&& kP2pCapabilityWorkRetrieval = 0
  · rw [if_pos capable]
    exact .unable
  · rw [if_neg capable]
    cases made : makeMiningWorkRequest { key, offset := 0 } with
    | error thrown => exact .malformed thrown
    | ok request =>
        rw [bind_of_ok (orThrow_ok request state),
          bind_of_ok (expire_apply now state), get_bind_apply]
        by_cases known : (live now state).received.contains key ∨
            (live now state).pending.contains
              (⟨peer.nodeId, key⟩ : PendingKey)
        · rw [if_pos known]
          exact .declined
        · rw [if_neg known]
          rw [not_or, Bool.not_eq_true, Bool.not_eq_true,
            contains_eq_false_iff, contains_eq_false_iff] at known
          by_cases busy :
              activeRequests (live now state).pending peer.nodeId ≥ 2
          · rw [if_pos busy]
            exact .declined
          · rw [if_neg busy]
            by_cases full :
                (live now state).pending.size ≥ kMiningWorkMaxPending
            · rw [if_pos full]
              cases chosen : oldestFinished (live now state).pending with
              | none => exact .declined
              | some reusable =>
                  obtain ⟨present, finished⟩ := oldestFinished_eq_some chosen
                  exact .requested request _ (require_eq_ok.mpr capable) made known.2 known.1
                    (not_le.mp busy)
                    (Or.inr ⟨reusable.1, reusable.2, present, finished, rfl⟩)
            · rw [if_neg full]
              exact .requested request _ (require_eq_ok.mpr capable) made known.2 known.1
                (not_le.mp busy) (Or.inl ⟨not_le.mp full, rfl⟩)

/-- What the checks say about a response that has data. -/
theorem checkResponse_found
    {response : MiningWorkResponse}
    (checked : checkResponse response = .ok ())
    (found : response.totalSize ≠ 0) :
    kMiningWorkChunkSize ∣ response.request.offset.toNat ∧
      kP2pMiningContextFixedPayloadSize ≤ response.totalSize.toNat ∧
      response.totalSize.toNat ≤ kP2pMaxPayloadSize ∧
      response.request.offset.toNat < response.totalSize.toNat ∧
      response.chunk.length = min kMiningWorkChunkSize
        (response.totalSize.toNat - response.request.offset.toNat) := by
  unfold checkResponse checkRequest at checked
  rw [except_seq_eq_ok, require_eq_ok, if_neg found, except_seq_eq_ok,
    require_eq_ok, require_eq_ok] at checked
  obtain ⟨⟨_, _, aligned⟩, ⟨least, most, inside⟩, length⟩ := checked
  have inside' : response.request.offset.toNat < response.totalSize.toNat :=
    UInt32.lt_iff_toNat_lt.mp inside
  rw [UInt32.toNat_sub_of_le _ _ (UInt32.le_of_lt inside)] at length
  exact ⟨Nat.dvd_of_mod_eq_zero aligned, least, most, inside', length⟩

/-- A completed piece is stored under its key. -/
theorem getElem?_storeReceived
    {received : Std.ExtTreeMap MiningWorkKey (List UInt8)}
    {key : MiningWorkKey}
    {bytes : List UInt8} :
    (storeReceived received key bytes)[key]? = some bytes := by
  unfold storeReceived
  split
  · split
    · exact getElem?_insert_iff.mpr (Or.inl ⟨rfl, rfl⟩)
    · exact getElem?_insert_iff.mpr (Or.inl ⟨rfl, rfl⟩)
  · exact getElem?_insert_iff.mpr (Or.inl ⟨rfl, rfl⟩)

/-- A stored piece is the new one or was there before. -/
theorem storeReceived_cases
    {received : Std.ExtTreeMap MiningWorkKey (List UInt8)}
    {key other : MiningWorkKey}
    {bytes found : List UInt8}
    (stored : (storeReceived received key bytes)[other]? = some found) :
    (other = key ∧ found = bytes) ∨ received[other]? = some found := by
  unfold storeReceived at stored
  split at stored
  · split at stored
    · rcases getElem?_insert_iff.mp stored with new | ⟨_, old⟩
      · exact Or.inl new
      · exact Or.inr old
    · rcases getElem?_insert_iff.mp stored with new | ⟨_, old⟩
      · exact Or.inl new
      · exact Or.inr (getElem?_erase_iff.mp old).2
  · rcases getElem?_insert_iff.mp stored with new | ⟨_, old⟩
    · exact Or.inl new
    · exact Or.inr old

theorem checkResponse_of_parsed
    {envelope : P2pEnvelope}
    {response : MiningWorkResponse}
    (parsed : parseMiningWorkResponse envelope = .ok response) :
    checkResponse response = .ok () :=
  (makeMiningWorkResponse_eq_ok.mp (parseMiningWorkResponse_eq_ok.mp parsed)).1

/-- Indexing local work touches neither requests nor completed pieces. -/
theorem rememberLocal_frame
    {state : P2pWorkRetrieval}
    (proposal : P2pMiningContextProposal) :
    (finalState (rememberLocal backend json proposal state)).pending =
        state.pending ∧
      (finalState (rememberLocal backend json proposal state)).received =
        state.received := by
  unfold rememberLocal
  cases p2pMiningContextId backend json proposal with
  | error thrown => exact ⟨rfl, rfl⟩
  | ok id =>
      cases checkedKey backend proposal with
      | error thrown => exact ⟨rfl, rfl⟩
      | ok key =>
          cases checkedLocalAnchor backend json proposal with
          | error thrown => exact ⟨rfl, rfl⟩
          | ok anchor => exact ⟨rfl, rfl⟩

end P2pWorkRetrieval

end ZanoP2pool
