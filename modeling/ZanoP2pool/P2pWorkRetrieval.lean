import ZanoP2pool.Foundation.Effect
import ZanoP2pool.Foundation.TreeMap
import ZanoP2pool.P2pMiningContext

namespace ZanoP2pool

open Foundation

/-!
# Retrieval of mining work from peers

A node asks a peer for a piece of mining work by its key and receives it in
chunks.  Requests in flight, completed pieces and the index of local records are
the state; nothing here makes a piece of work trusted.

The archive is the function that reads a stored payload by its id.
-/

def kMiningWorkMaxPending : Nat := 16

def kMiningWorkMaxReceived : Nat := 8

def kMiningWorkRequestLifetime : UInt64 := 60

/-- Keys are ordered by height, then header. -/
instance : Ord MiningWorkKey where
  compare :=
    compareLex (compareOn MiningWorkKey.zanoHeight)
      (compareOn MiningWorkKey.miningHeaderHash)

instance : Std.TransOrd MiningWorkKey :=
  inferInstanceAs (Std.TransCmp
    (compareLex (compareOn MiningWorkKey.zanoHeight)
      (compareOn MiningWorkKey.miningHeaderHash)))

instance : Std.LawfulEqOrd MiningWorkKey where
  eq_of_compare := by
    intro first second same
    obtain ⟨heights, headers⟩ := compareLex_eq_eq.mp same
    obtain ⟨⟩ := first
    obtain ⟨⟩ := second
    simp only [compareOn, Std.LawfulEqOrd.compare_eq_iff_eq]
      at heights headers
    simp [heights, headers]

/-- A piece of work requested from one peer. -/
structure PendingKey where
  nodeId : NodeId
  key : MiningWorkKey
  deriving Repr, DecidableEq

/-- Requests are ordered by peer, then key. -/
instance : Ord PendingKey where
  compare :=
    compareLex (compareOn PendingKey.nodeId) (compareOn PendingKey.key)

instance : Std.TransOrd PendingKey :=
  inferInstanceAs (Std.TransCmp
    (compareLex (compareOn PendingKey.nodeId) (compareOn PendingKey.key)))

instance : Std.LawfulEqOrd PendingKey where
  eq_of_compare := by
    intro first second same
    obtain ⟨nodes, keys⟩ := compareLex_eq_eq.mp same
    obtain ⟨⟩ := first
    obtain ⟨⟩ := second
    simp only [compareOn, Std.LawfulEqOrd.compare_eq_iff_eq] at nodes keys
    simp [nodes, keys]

/-- A local observation is looked up by height and previous hash. -/
structure LocalObservationKey where
  zanoHeight : UInt64
  prevHash : Hash256
  deriving Repr, DecidableEq

instance : Ord LocalObservationKey where
  compare :=
    compareLex (compareOn LocalObservationKey.zanoHeight)
      (compareOn LocalObservationKey.prevHash)

instance : Std.TransOrd LocalObservationKey :=
  inferInstanceAs (Std.TransCmp
    (compareLex (compareOn LocalObservationKey.zanoHeight)
      (compareOn LocalObservationKey.prevHash)))

instance : Std.LawfulEqOrd LocalObservationKey where
  eq_of_compare := by
    intro first second same
    obtain ⟨heights, hashes⟩ := compareLex_eq_eq.mp same
    obtain ⟨⟩ := first
    obtain ⟨⟩ := second
    simp only [compareOn, Std.LawfulEqOrd.compare_eq_iff_eq]
      at heights hashes
    simp [heights, hashes]

/-- A request in flight, or the cooldown of a finished one. -/
structure Pending where
  started : UInt64
  total : UInt32 := 0
  finished : Bool := false
  bytes : List UInt8 := []
  deriving Repr, DecidableEq

structure P2pWorkRetrieval where
  localWork : Std.ExtTreeMap MiningWorkKey Hash256 := ∅
  localObservations :
    Std.ExtTreeMap LocalObservationKey
      (Std.ExtTreeMap Hash256 P2pMiningAnchor) := ∅
  pending : Std.ExtTreeMap PendingKey Pending := ∅
  received : Std.ExtTreeMap MiningWorkKey (List UInt8) := ∅

/-- What a received response led to. -/
structure MiningWorkReceiveResult where
  followup : Option P2pEnvelope := none
  receivedId : Option Hash256 := none
  deriving Repr, DecidableEq

abbrev RetrievalM := EStateM Exception P2pWorkRetrieval

abbrev MiningWorkArchive := Hash256 → Except Exception (List UInt8)

def checkPeer (peer : P2pHandshake) : Except Exception Unit :=
  require (peer.capabilities &&& kP2pCapabilityWorkRetrieval ≠ 0)
    "peer lacks work-retrieval capability"

/-- The key a proposal is retrieved by. -/
def checkedKey
    (backend : Backend)
    (proposal : P2pMiningContextProposal) :
    Except Exception MiningWorkKey := do
  let work ← deriveMiningHeaderWork backend proposal.blockTemplateBlob
  return {
    zanoHeight := proposal.zanoHeight
    miningHeaderHash := work.headerHash }

/-- The anchor a proposal was observed under, after its structure checks. -/
def checkedLocalAnchor
    (backend : Backend)
    (json : JsonBackend)
    (proposal : P2pMiningContextProposal) :
    Except Exception P2pMiningAnchor := do
  let _ ← validateP2pMiningContextStructure backend json proposal
  return {
    zanoHeight := proposal.zanoHeight
    prevHash := proposal.prevHash
    networkDifficulty := proposal.networkDifficulty
    seed := proposal.seed
    blockRewardWithoutFee := proposal.blockRewardWithoutFee }

namespace P2pWorkRetrieval

/-- Index a proposal that has been archived; present entries stay. -/
def rememberLocal
    (backend : Backend)
    (json : JsonBackend)
    (proposal : P2pMiningContextProposal) :
    RetrievalM Unit := do
  let id ← orThrow (p2pMiningContextId backend json proposal)
  let key ← orThrow (checkedKey backend proposal)
  let anchor ← orThrow (checkedLocalAnchor backend json proposal)
  modify fun state =>
    let observationKey : LocalObservationKey :=
      { zanoHeight := anchor.zanoHeight, prevHash := anchor.prevHash }
    { state with
      localWork := state.localWork.insertIfNew key id
      localObservations :=
        state.localObservations.insert observationKey
          ((state.localObservations[observationKey]?.getD ∅).insertIfNew id
            anchor) }

/-- The anchors observed at a height and previous hash, in id order. -/
def observationsAt
    (state : P2pWorkRetrieval)
    (zanoHeight : UInt64)
    (prevHash : Hash256) :
    List P2pMiningAnchor :=
  let key : LocalObservationKey := { zanoHeight, prevHash }
  (state.localObservations[key]?.getD ∅).toList.map Prod.snd

/-- The archived payload of a key, if this node has it. -/
def readLocal
    (archive : MiningWorkArchive)
    (state : P2pWorkRetrieval)
    (key : MiningWorkKey) :
    Except Exception (Option (List UInt8)) :=
  match state.localWork[key]? with
  | none => return none
  | some id => do
      let payload ← archive id
      return some payload

/-- Whether a request is older than its lifetime, or from the future. -/
def expired (now : UInt64) (entry : Pending) : Bool :=
  now < entry.started ∨ now - entry.started ≥ kMiningWorkRequestLifetime

def expire (now : UInt64) : RetrievalM Unit :=
  modify fun state =>
    { state with
      pending := state.pending.filter fun _ entry => !expired now entry }

/-- Unfinished requests to a peer. -/
def activeRequests (pending : Std.ExtTreeMap PendingKey Pending)
    (nodeId : NodeId) : Nat :=
  pending.toList.countP fun item =>
    item.1.nodeId = nodeId ∧ !item.2.finished

/-- The older of the best finished request so far and the next one. -/
def olderFinished
    (reusable : Option (PendingKey × Pending))
    (item : PendingKey × Pending) :
    Option (PendingKey × Pending) :=
  if !item.2.finished then
    reusable
  else
    match reusable with
    | none => some item
    | some best => if item.2.started < best.2.started then some item else reusable

/-- The oldest finished request, the first one among equals. -/
def oldestFinished (pending : Std.ExtTreeMap PendingKey Pending) :
    Option (PendingKey × Pending) :=
  pending.toList.foldl olderFinished none

/-- Ask a peer for a piece of work, unless it is known or the table is full. -/
def begin
    (peer : P2pHandshake)
    (key : MiningWorkKey)
    (now : UInt64) :
    RetrievalM (Option P2pEnvelope) := do
  if peer.capabilities &&& kP2pCapabilityWorkRetrieval = 0 then
    return none
  else
    let request ← orThrow (makeMiningWorkRequest { key, offset := 0 })
    let pendingKey : PendingKey := { nodeId := peer.nodeId, key }
    expire now
    let state ← get
    if state.received.contains key ∨ state.pending.contains pendingKey then
      return none
    else if activeRequests state.pending peer.nodeId ≥ 2 then
      return none
    else if state.pending.size ≥ kMiningWorkMaxPending then
      match oldestFinished state.pending with
      | none => return none
      | some reusable =>
          set { state with
            pending := (state.pending.erase reusable.1).insert pendingKey
              { started := now } }
          return some request
    else
      set { state with
        pending := state.pending.insert pendingKey { started := now } }
      return some request

/-- Answer a request with one chunk of the archived payload. -/
def answer
    (archive : MiningWorkArchive)
    (state : P2pWorkRetrieval)
    (peer : P2pHandshake)
    (envelope : P2pEnvelope) :
    Except Exception P2pEnvelope := do
  checkPeer peer
  let request ← parseMiningWorkRequest envelope
  match state.localWork[request.key]? with
  | none => makeMiningWorkResponse { request }
  | some id =>
      let payload ← archive id
      require (request.offset.toNat < payload.length)
        "work request offset beyond record"
      let count := min kMiningWorkChunkSize
        (payload.length - request.offset.toNat)
      makeMiningWorkResponse {
        request
        totalSize := UInt32.ofNat payload.length
        chunk := (payload.drop request.offset.toNat).take count }

/-- What a chunk makes of the request it belongs to. -/
inductive ChunkOutcome where
  | missing
  | followup (request : P2pEnvelope)
  | complete (id : Hash256)
  deriving Repr, DecidableEq

/-- Add one chunk to a request; the entry keeps what was written when it throws. -/
def acceptChunk
    (backend : Backend)
    (json : JsonBackend)
    (response : MiningWorkResponse) :
    EStateM Exception Pending ChunkOutcome := do
  let entry ← get
  if response.request.offset.toNat ≠ entry.bytes.length then
    throw (.runtimeError "out-of-order work response")
  else if response.totalSize = 0 then
    set { entry with finished := true, bytes := [] }
    return .missing
  else if ¬ (entry.total = 0 ∨ entry.total = response.totalSize) then
    throw (.runtimeError "work response total changed")
  else
    let bytes := entry.bytes ++ response.chunk
    set { entry with total := response.totalSize, bytes }
    if bytes.length < response.totalSize.toNat then
      let request ← orThrow (makeMiningWorkRequest
        { key := response.request.key, offset := UInt32.ofNat bytes.length })
      return .followup request
    else
      let proposal ← orThrow (deserializeP2pMiningContextPayload json bytes)
      let key ← orThrow (checkedKey backend proposal)
      if key ≠ response.request.key then
        throw (.runtimeError
          "work evidence does not match requested header/height")
      else
        let id ← orThrow (p2pMiningContextId backend json proposal)
        return .complete id

/-- Store a completed piece, dropping the first one when there are too many. -/
def storeReceived
    (received : Std.ExtTreeMap MiningWorkKey (List UInt8))
    (key : MiningWorkKey)
    (bytes : List UInt8) :
    Std.ExtTreeMap MiningWorkKey (List UInt8) :=
  if received.size ≥ kMiningWorkMaxReceived then
    match received.minKey? with
    | none => received.insert key bytes
    | some first => (received.erase first).insert key bytes
  else
    received.insert key bytes

/-- Receive one response for a request in flight. -/
def receive
    (backend : Backend)
    (json : JsonBackend)
    (peer : P2pHandshake)
    (envelope : P2pEnvelope)
    (now : UInt64) :
    RetrievalM MiningWorkReceiveResult := do
  orThrow (checkPeer peer)
  let response ← orThrow (parseMiningWorkResponse envelope)
  expire now
  let state ← get
  let pendingKey : PendingKey :=
    { nodeId := peer.nodeId, key := response.request.key }
  match state.pending[pendingKey]? with
  | none => throw (.runtimeError "unsolicited/expired work response")
  | some entry =>
      if entry.finished then
        throw (.runtimeError "unsolicited/expired work response")
      else
        match acceptChunk backend json response entry with
        | .error thrown written =>
            set { state with
              pending := state.pending.insert pendingKey
                { written with finished := true, bytes := [] } }
            throw thrown
        | .ok .missing written =>
            set { state with
              pending := state.pending.insert pendingKey written }
            return {}
        | .ok (.followup request) written =>
            set { state with
              pending := state.pending.insert pendingKey written }
            return { followup := some request }
        | .ok (.complete id) written =>
            -- the bytes are moved out of the entry
            set { state with
              received := storeReceived state.received response.request.key
                written.bytes
              pending := state.pending.insert pendingKey
                { written with finished := true, bytes := [] } }
            return { receivedId := some id }

/-- Take a completed piece of work out. -/
def takeUntrusted
    (key : MiningWorkKey) :
    RetrievalM (Option (List UInt8)) := do
  let state ← get
  match state.received[key]? with
  | none => return none
  | some bytes =>
      set { state with received := state.received.erase key }
      return some bytes

end P2pWorkRetrieval

/-- One call on the retrieval object. -/
inductive RetrievalOp where
  | begin (peer : P2pHandshake) (key : MiningWorkKey) (now : UInt64)
  | receive (peer : P2pHandshake) (envelope : P2pEnvelope) (now : UInt64)
  | takeUntrusted (key : MiningWorkKey)
  | rememberLocal (proposal : P2pMiningContextProposal)
  deriving Repr, DecidableEq

/-- The state after one call, whether it returned or threw. -/
def RetrievalOp.attempt
    (backend : Backend)
    (json : JsonBackend)
    (state : P2pWorkRetrieval) :
    RetrievalOp → P2pWorkRetrieval
  | .begin peer key now =>
      finalState (P2pWorkRetrieval.begin peer key now state)
  | .receive peer envelope now =>
      finalState
        (P2pWorkRetrieval.receive backend json peer envelope now state)
  | .takeUntrusted key =>
      finalState (P2pWorkRetrieval.takeUntrusted key state)
  | .rememberLocal proposal =>
      finalState (P2pWorkRetrieval.rememberLocal backend json proposal state)

/-- The state after a sequence of calls. -/
def attemptRetrieval
    (backend : Backend)
    (json : JsonBackend)
    (ops : List RetrievalOp)
    (state : P2pWorkRetrieval) :
    P2pWorkRetrieval :=
  ops.foldl (RetrievalOp.attempt backend json) state

end ZanoP2pool
