import ZanoP2pool.Foundation.Pipe
import ZanoP2pool.P2pWireFormat
import ZanoP2pool.ShareChainInvariants

namespace ZanoP2pool

open Foundation

/-!
# How two nodes become peers

A connecting node sends its handshake and waits for the other one; an accepting
node checks what it receives and only then answers.  The bytes travel over two
pipes that deliver in pieces and may break, and each party may fail on its own.
Whatever happens, a connected node knows the other's handshake, and a connecting
node that is connected was accepted.
-/

inductive P2pHandshakeStatus where
  | accept
  | wrongNetwork
  | wrongSidechain
  | selfConnection
  deriving Repr, DecidableEq

def validateP2pHandshake
    (peer : P2pHandshake)
    (expectedNetwork : P2pNetwork)
    (expectedSidechainId : SidechainId)
    (localNodeId : NodeId) :
    P2pHandshakeStatus :=
  if peer.network ≠ expectedNetwork then
    .wrongNetwork
  else if peer.sidechainId ≠ expectedSidechainId then
    .wrongSidechain
  else if peer.nodeId = localNodeId then
    .selfConnection
  else
    .accept

def requireAcceptedHandshake
    (backend : Backend)
    (peer localHandshake : P2pHandshake) :
    Except Exception Unit := do
  let expectedSidechainId ← resolvedP2pSidechainId backend localHandshake
  match validateP2pHandshake peer localHandshake.network expectedSidechainId
    localHandshake.nodeId with
  | .accept => return ()
  | .wrongNetwork => throw (.runtimeError "P2P peer is on the wrong network")
  | .wrongSidechain =>
      throw (.runtimeError "P2P peer is on the wrong sidechain")
  | .selfConnection => throw (.runtimeError "P2P self-connection rejected")

/-- What a node says of itself, once it has named its sidechain. -/
def normalizedLocal
    (backend : Backend)
    (localHandshake : P2pHandshake) :
    Except Exception P2pHandshake := do
  let sidechainId ← resolvedP2pSidechainId backend localHandshake
  let normalized := { localHandshake with sidechainId }
  let _ ← serializeP2pHandshakePayload backend normalized
  return normalized

/-- The handshake of a listener that has been built and started on a port. -/
def startedListener
    (backend : Backend)
    (localHandshake : P2pHandshake)
    (boundPort : UInt16) :
    Except Exception P2pHandshake := do
  let normalized ← normalizedLocal backend localHandshake
  if normalized.listenPort = 0 then
    return { normalized with listenPort := boundPort }
  else
    return normalized

/-- The two ends of a connection, as they introduce themselves. -/
structure P2pParties where
  connecting : P2pHandshake
  accepting : P2pHandshake
  deriving Repr, DecidableEq

def P2pParties.create
    (backend : Backend)
    (connecting accepting : P2pHandshake)
    (boundPort : UInt16) :
    Except Exception P2pParties := do
  let accepting ← startedListener backend accepting boundPort
  let connecting ← normalizedLocal backend connecting
  return { connecting, accepting }

/-- Where `connect_p2p_peer` stands, from its open socket on. -/
inductive ConnectPhase where
  | opened
  | awaiting
  | connected (peerHandshake : P2pHandshake)
  | failed (thrown : Exception)
  deriving Repr, DecidableEq

/-- Where `accept_peer` stands, from its accepted socket on. -/
inductive AcceptPhase where
  | awaiting
  | replying (peerHandshake : P2pHandshake)
  | connected (peerHandshake : P2pHandshake)
  | failed (thrown : Exception)
  deriving Repr, DecidableEq

/-- The two calls and the bytes between them. -/
structure P2pExchange where
  connector : ConnectPhase := .opened
  acceptor : AcceptPhase := .awaiting
  forward : Pipe UInt8 := {}
  backward : Pipe UInt8 := {}
  deriving Repr, DecidableEq

/-- What a reader throws at the end of a pipe; a broken link reads as its end. -/
def socketClosed : Exception :=
  .runtimeError "P2P socket closed during receive"

/-- Stands for every way in which a send stops early. -/
def sendFailed : Exception :=
  .runtimeError "P2P socket closed during send"

/-- Send a handshake, of which the socket takes `written` bytes at most. -/
def sendHandshake
    (backend : Backend)
    (localHandshake : P2pHandshake)
    (written : Nat)
    (pipe : Pipe UInt8) :
    Except Exception Unit × Pipe UInt8 :=
  match makeP2pHandshakeEnvelope backend localHandshake >>=
    serializeP2pEnvelope with
  | .error thrown => (.error thrown, pipe)
  | .ok bytes =>
      if bytes.length ≤ written then
        (.ok (), pipe.write bytes)
      else
        (.error sendFailed, pipe.write (bytes.take written))

/-- The handshake in an envelope, when the receiver accepts it. -/
def readHandshake
    (backend : Backend)
    (localHandshake : P2pHandshake)
    (peerEnvelope : P2pEnvelope) :
    Except Exception P2pHandshake := do
  let peerHandshake ← parseP2pHandshakeEnvelope peerEnvelope
  requireAcceptedHandshake backend peerHandshake localHandshake
  return peerHandshake

/-- Receive a handshake; nothing while the socket waits for more bytes. -/
def receiveHandshake
    (backend : Backend)
    (localHandshake : P2pHandshake)
    (pipe : Pipe UInt8) :
    Option (Except Exception P2pHandshake × Pipe UInt8) :=
  match receiveEnvelope pipe.arrived with
  | .error thrown =>
      if thrown = socketClosed ∧ pipe.ended = false then
        none
      else
        some (.error thrown, pipe)
  | .ok (peerEnvelope, rest) =>
      some (readHandshake backend localHandshake peerEnvelope,
        { pipe with arrived := rest })

namespace P2pExchange

variable (backend : Backend) (parties : P2pParties)

def connectorSend (written : Nat) (exchange : P2pExchange) : P2pExchange :=
  match exchange.connector with
  | .opened =>
      match sendHandshake backend parties.connecting written
        exchange.forward with
      | (.ok _, forward) => { exchange with connector := .awaiting, forward }
      | (.error thrown, forward) =>
          { exchange with
            connector := .failed thrown
            forward := forward.close }
  | _ => exchange

def acceptorReceive (exchange : P2pExchange) : P2pExchange :=
  match exchange.acceptor with
  | .awaiting =>
      match receiveHandshake backend parties.accepting exchange.forward with
      | none => exchange
      | some (.ok peer, forward) =>
          { exchange with acceptor := .replying peer, forward }
      | some (.error thrown, forward) =>
          { exchange with
            acceptor := .failed thrown
            forward
            backward := exchange.backward.close }
  | _ => exchange

def acceptorSend (written : Nat) (exchange : P2pExchange) : P2pExchange :=
  match exchange.acceptor with
  | .replying peer =>
      match sendHandshake backend parties.accepting written
        exchange.backward with
      | (.ok _, backward) =>
          { exchange with acceptor := .connected peer, backward }
      | (.error thrown, backward) =>
          { exchange with
            acceptor := .failed thrown
            backward := backward.close }
  | _ => exchange

def connectorReceive (exchange : P2pExchange) : P2pExchange :=
  match exchange.connector with
  | .awaiting =>
      match receiveHandshake backend parties.connecting exchange.backward with
      | none => exchange
      | some (.ok peer, backward) =>
          { exchange with connector := .connected peer, backward }
      | some (.error thrown, backward) =>
          { exchange with
            connector := .failed thrown
            backward
            forward := exchange.forward.close }
  | _ => exchange

end P2pExchange

/-- One section of a call, or what the network does. -/
inductive ExchangeStep where
  | connectorSend (written : Nat)
  | acceptorReceive
  | acceptorSend (written : Nat)
  | connectorReceive
  | deliverForward (count : Nat)
  | deliverBackward (count : Nat)
  | cutForward
  | cutBackward
  deriving Repr, DecidableEq

def ExchangeStep.run
    (backend : Backend)
    (parties : P2pParties)
    (exchange : P2pExchange) :
    ExchangeStep → P2pExchange
  | connectorSend written => exchange.connectorSend backend parties written
  | acceptorReceive => exchange.acceptorReceive backend parties
  | acceptorSend written => exchange.acceptorSend backend parties written
  | connectorReceive => exchange.connectorReceive backend parties
  | deliverForward count =>
      { exchange with forward := exchange.forward.deliver count }
  | deliverBackward count =>
      { exchange with backward := exchange.backward.deliver count }
  | cutForward => { exchange with forward := exchange.forward.cut }
  | cutBackward => { exchange with backward := exchange.backward.cut }

def runExchange
    (backend : Backend)
    (parties : P2pParties)
    (steps : List ExchangeStep)
    (exchange : P2pExchange) :
    P2pExchange :=
  steps.foldl (fun reached step => step.run backend parties reached) exchange

/-- Neither end has a reason to refuse the other. -/
structure Compatible (first second : P2pHandshake) : Prop where
  network : first.network = second.network
  sidechain : first.sidechainId = second.sidechainId
  named : first.sidechainId ≠ 0
  nodes : first.nodeId ≠ second.nodeId

theorem Compatible.symm
    {first second : P2pHandshake}
    (compatible : Compatible first second) :
    Compatible second first where
  network := compatible.network.symm
  sidechain := compatible.sidechain.symm
  named := by
    rw [← compatible.sidechain]
    exact compatible.named
  nodes := compatible.nodes.symm

/-- A handshake that a node can send as it stands. -/
structure Presentable (backend : Backend) (handshake : P2pHandshake) : Prop where
  valid : requireValidHandshake handshake = .ok ()
  resolved :
    resolvedP2pSidechainId backend handshake = .ok handshake.sidechainId

section Handshakes

variable {backend : Backend}
  {handshake localHandshake normalized peer : P2pHandshake}
  {pipe next : Pipe UInt8}

theorem normalizedLocal_presentable
    (made : normalizedLocal backend localHandshake = .ok normalized) :
    Presentable backend normalized := by
  unfold normalizedLocal at made
  obtain ⟨sidechainId, resolved, made⟩ := except_bind_eq_ok.mp made
  obtain ⟨payload, serialized, made⟩ := except_bind_eq_ok.mp made
  cases made
  have valid : requireValidHandshake { localHandshake with sidechainId } =
      .ok () :=
    (except_seq_eq_ok.mp serialized).1
  refine ⟨valid, ?_⟩
  by_cases named : sidechainId = 0
  · -- the canonical id of the network is the zero one, and stays so
    have unnamed : localHandshake.sidechainId = 0 := by
      by_contra nonzero
      rw [resolvedP2pSidechainId_of_ne nonzero] at resolved
      cases resolved
      exact nonzero named
    unfold resolvedP2pSidechainId at resolved ⊢
    rw [unnamed] at resolved
    rw [← named] at resolved
    simpa [named] using resolved
  · exact resolvedP2pSidechainId_of_ne named

theorem startedListener_presentable
    {boundPort : UInt16}
    (made :
      startedListener backend localHandshake boundPort = .ok normalized) :
    Presentable backend normalized := by
  unfold startedListener at made
  obtain ⟨named, isNormalized, made⟩ := except_bind_eq_ok.mp made
  have presentable := normalizedLocal_presentable isNormalized
  split_ifs at made <;> cases made
  · exact ⟨presentable.valid, presentable.resolved⟩
  · exact presentable

/-- The envelope that introduces a node. -/
def helloEnvelope (handshake : P2pHandshake) : P2pEnvelope where
  type := .handshake
  payload := handshakeBytes handshake

def helloBytes (handshake : P2pHandshake) : List UInt8 :=
  envelopeBytes (helloEnvelope handshake)

def helloSize : Nat :=
  kP2pEnvelopeHeaderSize + kP2pHandshakePayloadSize

theorem length_helloBytes (handshake : P2pHandshake) :
    (helloBytes handshake).length = helloSize := by
  unfold helloBytes envelopeBytes helloEnvelope
  rw [List.length_append, length_envelopeHeaderBytes, length_handshakeBytes]
  rfl

theorem helloEnvelope_transportable (handshake : P2pHandshake) :
    Transportable (helloEnvelope handshake) where
  version := rfl
  flags := rfl
  size := by
    unfold helloEnvelope
    rw [length_handshakeBytes]
    decide

/-- A node sends its whole introduction, or fails after a part of it. -/
theorem sendHandshake_eq
    (presentable : Presentable backend handshake)
    (written : Nat) :
    sendHandshake backend handshake written pipe =
      if helloSize ≤ written then
        (.ok (), pipe.write (helloBytes handshake))
      else
        (.error sendFailed,
          pipe.write ((helloBytes handshake).take written)) := by
  have made :
      (makeP2pHandshakeEnvelope backend handshake >>= serializeP2pEnvelope) =
        .ok (helloBytes handshake) := by
    refine except_bind_eq_ok.mpr ⟨helloEnvelope handshake, ?_, ?_⟩
    · exact makeP2pHandshakeEnvelope_eq_ok.mpr
        ⟨presentable.valid, _, presentable.resolved, rfl⟩
    · exact serializeP2pEnvelope_eq_ok.mpr
        ⟨helloEnvelope_transportable handshake, rfl⟩
  unfold sendHandshake
  rw [made]
  dsimp only
  rw [length_helloBytes]

/-- The parser reads the node that introduced itself, if it named its sidechain. -/
theorem parse_helloEnvelope
    (valid : requireValidHandshake handshake = .ok ()) :
    parseP2pHandshakeEnvelope (helloEnvelope handshake) = .ok peer ↔
      peer = handshake ∧ handshake.sidechainId ≠ 0 := by
  by_cases named : handshake.sidechainId = 0
  · have refused := parseP2pHandshakeEnvelope_zero named
    constructor
    · intro parsed
      rw [helloEnvelope, refused] at parsed
      cases parsed
    · rintro ⟨_, nonzero⟩
      exact absurd named nonzero
  · have read :
        parseP2pHandshakeEnvelope (helloEnvelope handshake) =
          .ok handshake :=
      parseP2pHandshakeEnvelope_eq_ok.mpr ⟨named, valid, rfl⟩
    rw [read, Except.ok.injEq]
    constructor
    · rintro rfl
      exact ⟨rfl, named⟩
    · rintro ⟨rfl, _⟩
      rfl

theorem requireAcceptedHandshake_eq_ok
    (presentable : Presentable backend localHandshake) :
    requireAcceptedHandshake backend peer localHandshake = .ok () ↔
      peer.network = localHandshake.network ∧
        peer.sidechainId = localHandshake.sidechainId ∧
        peer.nodeId ≠ localHandshake.nodeId := by
  unfold requireAcceptedHandshake
  rw [presentable.resolved]
  dsimp only [bind, Except.bind]
  unfold validateP2pHandshake
  by_cases network : peer.network = localHandshake.network
  swap
  · rw [if_pos network]
    simp [network, throw, throwThe, MonadExceptOf.throw]
  rw [if_neg (not_not_intro network)]
  by_cases sidechain : peer.sidechainId = localHandshake.sidechainId
  swap
  · rw [if_pos sidechain]
    simp [sidechain, throw, throwThe, MonadExceptOf.throw]
  rw [if_neg (not_not_intro sidechain)]
  by_cases self : peer.nodeId = localHandshake.nodeId
  · rw [if_pos self]
    simp [self, throw, throwThe, MonadExceptOf.throw]
  · rw [if_neg self]
    simp [network, sidechain, self, pure, Except.pure]

/-- An introduction is accepted by the compatible nodes. -/
theorem readHandshake_helloEnvelope
    (introduced : Presentable backend handshake)
    (presentable : Presentable backend localHandshake) :
    readHandshake backend localHandshake (helloEnvelope handshake) =
        .ok peer ↔
      peer = handshake ∧ Compatible handshake localHandshake := by
  unfold readHandshake
  rw [except_bind_eq_ok]
  simp only [parse_helloEnvelope introduced.valid, except_seq_eq_ok,
    requireAcceptedHandshake_eq_ok presentable, pure, Except.pure,
    Except.ok.injEq]
  constructor
  · rintro ⟨_, ⟨rfl, named⟩, ⟨network, sidechain, nodes⟩, rfl⟩
    exact ⟨rfl, network, sidechain, named, nodes⟩
  · rintro ⟨rfl, compatible⟩
    exact ⟨_, ⟨rfl, compatible.named⟩, ⟨compatible.network,
      compatible.sidechain, compatible.nodes⟩, rfl⟩

/-- A part of a frame leaves the receiver short of bytes. -/
theorem receiveEnvelope_part
    {envelope : P2pEnvelope}
    {part : List UInt8}
    (transportable : Transportable envelope)
    (isPart : part <+: envelopeBytes envelope)
    (short : part.length < (envelopeBytes envelope).length) :
    receiveEnvelope part = .error socketClosed := by
  obtain ⟨missing, whole⟩ := isPart
  have sized := toNat_payloadSize transportable.size
  rw [envelopeBytes, List.length_append, length_envelopeHeaderBytes] at short
  unfold receiveEnvelope recvExact
  by_cases header : part.length < kP2pEnvelopeHeaderSize
  · have stopped :
        takeBytes kP2pEnvelopeHeaderSize socketClosed part =
          .error socketClosed :=
      if_pos header
    change (takeBytes kP2pEnvelopeHeaderSize socketClosed >>= _) part = _
    dsimp only [bind, StateT.bind]
    rw [stopped]
    rfl
  · have split :
        part =
          envelopeHeaderBytes envelope
              (UInt32.ofNat envelope.payload.length) ++
            part.drop kP2pEnvelopeHeaderSize := by
      have taken := congrArg (List.take kP2pEnvelopeHeaderSize) whole
      rw [List.take_append_of_le_length (not_lt.mp header),
        envelopeBytes, List.take_left'
          (length_envelopeHeaderBytes _ _)] at taken
      rw [← taken, List.take_append_drop]
    rw [split, cursor_bind_of_ok (takeBytes_append
        (length_envelopeHeaderBytes _ _) _ _),
      cursor_bind_of_ok (cursor_lift_eq_ok.mpr
        ⟨validateStreamHeader_envelopeHeaderBytes transportable, rfl⟩)]
    have nonempty : UInt32.ofNat envelope.payload.length ≠ 0 := by
      intro zero
      rw [zero] at sized
      have empty : envelope.payload.length = 0 := sized.symm
      omega
    have stopped :
        takeBytes (UInt32.ofNat envelope.payload.length).toNat socketClosed
            (part.drop kP2pEnvelopeHeaderSize) =
          .error socketClosed := by
      refine if_pos ?_
      rw [sized, List.length_drop]
      omega
    rw [if_pos nonempty]
    change (takeBytes _ socketClosed >>= _) _ = _
    dsimp only [bind, StateT.bind]
    rw [stopped]
    rfl

theorem receiveEnvelope_helloBytes_part
    {part : List UInt8}
    (isPart : part <+: helloBytes handshake)
    (short : part.length < helloSize) :
    receiveEnvelope part = .error socketClosed := by
  rw [← length_helloBytes handshake] at short
  exact receiveEnvelope_part (helloEnvelope_transportable handshake) isPart
    short

/-- A whole introduction is read off the pipe. -/
theorem receiveHandshake_whole
    (arrived : pipe.arrived = helloBytes handshake) :
    receiveHandshake backend localHandshake pipe =
      some (readHandshake backend localHandshake (helloEnvelope handshake),
        { pipe with arrived := [] }) := by
  have received :
      receiveEnvelope pipe.arrived = .ok (helloEnvelope handshake, []) := by
    refine receiveEnvelope_eq_ok.mpr
      ⟨helloEnvelope_transportable handshake, ?_⟩
    rw [arrived, List.append_nil, helloBytes]
  unfold receiveHandshake
  rw [received]

/-- A part of an introduction is waited on until the pipe ends. -/
theorem receiveHandshake_part
    (isPart : pipe.arrived <+: helloBytes handshake)
    (short : pipe.arrived.length < helloSize) :
    receiveHandshake backend localHandshake pipe =
      if pipe.ended = false then none
      else some (.error socketClosed, pipe) := by
  unfold receiveHandshake
  rw [receiveEnvelope_helloBytes_part isPart short]
  simp

end Handshakes

/-- The acceptor has accepted this peer. -/
def AcceptPhase.Accepts (phase : AcceptPhase) (peer : P2pHandshake) : Prop :=
  phase = .replying peer ∨ phase = .connected peer

/-- What the way back holds, by how far the acceptor has come. -/
def AcceptPhase.Answered (backward : Pipe UInt8) : AcceptPhase → Prop
  | .awaiting => backward.content = []
  | .replying _ => backward.content = []
  | .failed _ => backward.content.length < helloSize
  | .connected _ => True

/-- The phases and the pipes of an exchange fit together. -/
structure P2pExchange.Coherent
    (parties : P2pParties)
    (exchange : P2pExchange) :
    Prop where
  unsent : exchange.connector = .opened → exchange.forward.content = []
  introduced :
    exchange.acceptor = .awaiting →
      exchange.forward.content <+: helloBytes parties.connecting
  accepted :
    ∀ peer, exchange.acceptor.Accepts peer →
      peer = parties.connecting ∧
        Compatible parties.connecting parties.accepting
  answer :
    exchange.connector = .opened ∨ exchange.connector = .awaiting →
      exchange.backward.content <+: helloBytes parties.accepting
  answered : exchange.acceptor.Answered exchange.backward
  agreed :
    ∀ peer, exchange.connector = .connected peer →
      peer = parties.accepting ∧
        exchange.acceptor = .connected parties.connecting

namespace P2pExchange

variable {backend : Backend} {parties : P2pParties} {exchange : P2pExchange}

theorem answered_of_length_le
    {phase : AcceptPhase}
    {backward next : Pipe UInt8}
    (answered : phase.Answered backward)
    (shorter : next.content.length ≤ backward.content.length) :
    phase.Answered next := by
  have emptied (empty : backward.content = []) : next.content = [] := by
    rw [empty, List.length_nil, Nat.le_zero] at shorter
    exact List.length_eq_zero_iff.mp shorter
  cases phase with
  | awaiting => exact emptied answered
  | replying peer => exact emptied answered
  | failed thrown => exact lt_of_le_of_lt shorter answered
  | connected peer => trivial

/-- What a receiver does with a pipe that holds no more than an introduction. -/
theorem receiveHandshake_cases
    {handshake localHandshake : P2pHandshake}
    {pipe next : Pipe UInt8}
    {outcome : Except Exception P2pHandshake}
    (isPart : pipe.content <+: helloBytes handshake)
    (received :
      receiveHandshake backend localHandshake pipe = some (outcome, next)) :
    next.content <+: pipe.content ∧
      ((pipe.content = helloBytes handshake ∧
          outcome =
            readHandshake backend localHandshake (helloEnvelope handshake)) ∨
        ∃ thrown, outcome = .error thrown) := by
  have arrivedPart : pipe.arrived <+: helloBytes handshake :=
    (List.prefix_append _ _).trans isPart
  rcases lt_or_ge pipe.arrived.length helloSize with short | whole
  · rw [receiveHandshake_part arrivedPart short] at received
    split_ifs at received
    cases received
    exact ⟨List.prefix_refl _, .inr ⟨_, rfl⟩⟩
  · have arrived : pipe.arrived = helloBytes handshake :=
      arrivedPart.eq_of_length_le (by rwa [length_helloBytes])
    have nothing : pipe.inFlight = [] := by
      have bounded := isPart.length_le
      rw [Pipe.content, List.length_append, arrived] at bounded
      exact List.length_eq_zero_iff.mp (by omega)
    rw [receiveHandshake_whole arrived] at received
    cases received
    refine ⟨?_, .inl ⟨?_, rfl⟩⟩
    · rw [Pipe.content, nothing]
      exact List.nil_prefix
    · rw [Pipe.content, nothing, List.append_nil, arrived]

section Steps

variable (connecting : Presentable backend parties.connecting)
  (accepting : Presentable backend parties.accepting)
  (coherent : exchange.Coherent parties)

include connecting coherent in
theorem connectorSend_coherent (written : Nat) :
    (exchange.connectorSend backend parties written).Coherent parties := by
  unfold connectorSend
  cases phase : exchange.connector with
  | opened =>
      have empty := coherent.unsent phase
      have sent (items : List UInt8) :
          (exchange.forward.write items).content <+: items := by
        have written := @Pipe.content_write _ exchange.forward items
        rwa [empty, List.nil_append] at written
      have answer := coherent.answer (.inl phase)
      dsimp only
      rw [sendHandshake_eq connecting]
      split_ifs with whole
      · exact {
          unsent := by rintro ⟨⟩
          introduced := fun _ => sent _
          accepted := coherent.accepted
          answer := fun _ => answer
          answered := coherent.answered
          agreed := by rintro peer ⟨⟩ }
      · exact {
          unsent := by rintro ⟨⟩
          introduced := fun _ => (sent _).trans (List.take_prefix _ _)
          accepted := coherent.accepted
          answer := fun _ => answer
          answered := coherent.answered
          agreed := by rintro peer ⟨⟩ }
  | awaiting => exact coherent
  | connected peer => exact coherent
  | failed thrown => exact coherent

include connecting accepting coherent in
theorem acceptorReceive_coherent :
    (exchange.acceptorReceive backend parties).Coherent parties := by
  unfold acceptorReceive
  cases phase : exchange.acceptor with
  | awaiting =>
      have isPart := coherent.introduced phase
      have silent : exchange.backward.content = [] := by
        have answered := coherent.answered
        rwa [phase] at answered
      have unconnected (peer : P2pHandshake)
          (reached : exchange.connector = .connected peer) : False := by
        have agreed := (coherent.agreed peer reached).2
        rw [phase] at agreed
        cases agreed
      dsimp only
      cases received :
          receiveHandshake backend parties.accepting exchange.forward with
      | none => exact coherent
      | some result =>
          obtain ⟨outcome, next⟩ := result
          obtain ⟨shorter, cause⟩ := receiveHandshake_cases isPart received
          have unsent (opened : exchange.connector = .opened) :
              next.content = [] := by
            rw [coherent.unsent opened] at shorter
            exact List.prefix_nil.mp shorter
          cases outcome with
          | error thrown =>
              exact {
                unsent := unsent
                introduced := by rintro ⟨⟩
                accepted := by rintro peer (reached | reached) <;> cases reached
                answer := coherent.answer
                answered := by
                  change exchange.backward.content.length < helloSize
                  rw [silent]
                  decide
                agreed := fun peer reached =>
                  (unconnected peer reached).elim }
          | ok peer =>
              obtain ⟨_, reads⟩ | ⟨thrown, isError⟩ := cause
              swap
              · cases isError
              have accepted :=
                (readHandshake_helloEnvelope connecting accepting).mp reads.symm
              exact {
                unsent := unsent
                introduced := by rintro ⟨⟩
                accepted := by
                  rintro other (reached | reached)
                  · cases reached
                    exact accepted
                  · cases reached
                answer := coherent.answer
                answered := silent
                agreed := fun peer reached =>
                  (unconnected peer reached).elim }
  | replying peer => exact coherent
  | connected peer => exact coherent
  | failed thrown => exact coherent

include accepting coherent in
theorem acceptorSend_coherent (written : Nat) :
    (exchange.acceptorSend backend parties written).Coherent parties := by
  unfold acceptorSend
  cases phase : exchange.acceptor with
  | replying peer =>
      obtain ⟨rfl, compatible⟩ := coherent.accepted peer (.inl phase)
      have silent : exchange.backward.content = [] := by
        have answered := coherent.answered
        rwa [phase] at answered
      have sent (items : List UInt8) :
          (exchange.backward.write items).content <+: items := by
        have written := @Pipe.content_write _ exchange.backward items
        rwa [silent, List.nil_append] at written
      have unconnected (peer : P2pHandshake)
          (reached : exchange.connector = .connected peer) : False := by
        have agreed := (coherent.agreed peer reached).2
        rw [phase] at agreed
        cases agreed
      dsimp only
      rw [sendHandshake_eq accepting]
      split_ifs with whole
      · exact {
          unsent := coherent.unsent
          introduced := by rintro ⟨⟩
          accepted := by
            rintro other (reached | reached)
            · cases reached
            · cases reached
              exact ⟨rfl, compatible⟩
          answer := fun _ => sent _
          answered := trivial
          agreed := fun peer reached => (unconnected peer reached).elim }
      · exact {
          unsent := coherent.unsent
          introduced := by rintro ⟨⟩
          accepted := by rintro other (reached | reached) <;> cases reached
          answer := fun _ => (sent _).trans (List.take_prefix _ _)
          answered := by
            refine lt_of_le_of_lt (sent _).length_le ?_
            rw [List.length_take]
            omega
          agreed := fun peer reached => (unconnected peer reached).elim }
  | awaiting => exact coherent
  | connected peer => exact coherent
  | failed thrown => exact coherent

include connecting accepting coherent in
theorem connectorReceive_coherent :
    (exchange.connectorReceive backend parties).Coherent parties := by
  unfold connectorReceive
  cases phase : exchange.connector with
  | awaiting =>
      have isPart := coherent.answer (.inr phase)
      dsimp only
      cases received :
          receiveHandshake backend parties.connecting exchange.backward with
      | none => exact coherent
      | some result =>
          obtain ⟨outcome, next⟩ := result
          obtain ⟨shorter, cause⟩ := receiveHandshake_cases isPart received
          have answered : exchange.acceptor.Answered next :=
            answered_of_length_le coherent.answered shorter.length_le
          cases outcome with
          | error thrown =>
              exact {
                unsent := by rintro ⟨⟩
                introduced := coherent.introduced
                accepted := coherent.accepted
                answer := by rintro (reached | reached) <;> cases reached
                answered := answered
                agreed := by rintro peer ⟨⟩ }
          | ok peer =>
              obtain ⟨whole, reads⟩ | ⟨thrown, isError⟩ := cause
              swap
              · cases isError
              obtain ⟨rfl, _⟩ :=
                (readHandshake_helloEnvelope accepting connecting).mp reads.symm
              -- a whole answer is on its way back, so the acceptor has sent it
              have connected :
                  exchange.acceptor = .connected parties.connecting := by
                have sent : exchange.backward.content.length = helloSize := by
                  rw [whole, length_helloBytes]
                have before := coherent.answered
                cases acceptor : exchange.acceptor with
                | awaiting =>
                    rw [acceptor] at before
                    rw [show exchange.backward.content = [] from before] at sent
                    cases sent
                | replying other =>
                    rw [acceptor] at before
                    rw [show exchange.backward.content = [] from before] at sent
                    cases sent
                | failed thrown =>
                    rw [acceptor] at before
                    exact absurd sent (Nat.ne_of_lt before)
                | connected other =>
                    rw [(coherent.accepted other (.inr acceptor)).1]
              exact {
                unsent := by rintro ⟨⟩
                introduced := coherent.introduced
                accepted := coherent.accepted
                answer := by rintro (reached | reached) <;> cases reached
                answered := answered
                agreed := by
                  rintro other reached
                  cases reached
                  exact ⟨rfl, connected⟩ }
  | opened => exact coherent
  | connected peer => exact coherent
  | failed thrown => exact coherent

include coherent in
/-- Delivery and loss leave a part of what the pipes held. -/
theorem Coherent.carried
    {forward backward : Pipe UInt8}
    (fewer : forward.content <+: exchange.forward.content)
    (back : backward.content <+: exchange.backward.content) :
    P2pExchange.Coherent parties { exchange with forward, backward } where
  unsent := by
    intro opened
    rw [coherent.unsent opened] at fewer
    exact List.prefix_nil.mp fewer
  introduced := fun awaiting => fewer.trans (coherent.introduced awaiting)
  accepted := coherent.accepted
  answer := fun pending => back.trans (coherent.answer pending)
  answered := answered_of_length_le coherent.answered back.length_le
  agreed := coherent.agreed

include connecting accepting coherent in
/-- Every step keeps phases and pipes together. -/
theorem Coherent.step (step : ExchangeStep) :
    (step.run backend parties exchange).Coherent parties := by
  cases step with
  | connectorSend written =>
      exact connectorSend_coherent connecting coherent written
  | acceptorReceive =>
      exact acceptorReceive_coherent connecting accepting coherent
  | acceptorSend written =>
      exact acceptorSend_coherent accepting coherent written
  | connectorReceive =>
      exact connectorReceive_coherent connecting accepting coherent
  | deliverForward count =>
      exact coherent.carried (by rw [Pipe.content_deliver])
        (List.prefix_refl _)
  | deliverBackward count =>
      exact coherent.carried (List.prefix_refl _)
        (by rw [Pipe.content_deliver])
  | cutForward => exact coherent.carried Pipe.content_cut (List.prefix_refl _)
  | cutBackward =>
      exact coherent.carried (List.prefix_refl _) Pipe.content_cut

include connecting accepting coherent in
theorem Coherent.run (steps : List ExchangeStep) :
    (runExchange backend parties steps exchange).Coherent parties := by
  induction steps generalizing exchange with
  | nil => exact coherent
  | cons step rest inductionHypothesis =>
      exact inductionHypothesis (coherent.step connecting accepting step)

end Steps

theorem start_coherent : P2pExchange.Coherent parties {} where
  unsent := fun _ => rfl
  introduced := fun _ => List.nil_prefix
  accepted := by rintro peer (reached | reached) <;> cases reached
  answer := fun _ => List.nil_prefix
  answered := rfl
  agreed := by rintro peer ⟨⟩

end P2pExchange

/-- How far an exchange has come in which nothing has failed on the way. -/
inductive ExchangeStage (parties : P2pParties) : P2pExchange → Prop where
  | opened : ExchangeStage parties {}
  | introduced
      (forward : Pipe UInt8)
      (isOpen : forward.closed = false)
      (carries : forward.content = helloBytes parties.connecting) :
      ExchangeStage parties { connector := .awaiting, forward }
  | accepted
      (compatible : Compatible parties.connecting parties.accepting) :
      ExchangeStage parties {
        connector := .awaiting
        acceptor := .replying parties.connecting }
  | answered
      (compatible : Compatible parties.connecting parties.accepting)
      (backward : Pipe UInt8)
      (isOpen : backward.closed = false)
      (carries : backward.content = helloBytes parties.accepting) :
      ExchangeStage parties {
        connector := .awaiting
        acceptor := .connected parties.connecting
        backward }
  | finished
      (compatible : Compatible parties.connecting parties.accepting) :
      ExchangeStage parties {
        connector := .connected parties.accepting
        acceptor := .connected parties.connecting }
  | refused
      (refusal : Exception)
      (incompatible : ¬ Compatible parties.connecting parties.accepting) :
      ExchangeStage parties {
        connector := .awaiting
        acceptor := .failed refusal
        backward := { closed := true } }
  | ended
      (refusal : Exception)
      (incompatible : ¬ Compatible parties.connecting parties.accepting) :
      ExchangeStage parties {
        connector := .failed socketClosed
        acceptor := .failed refusal
        forward := { closed := true }
        backward := { closed := true } }

/-- The socket takes all that is sent, and no link breaks. -/
def ExchangeStep.Faultless : ExchangeStep → Prop
  | connectorSend written => helloSize ≤ written
  | acceptorSend written => helloSize ≤ written
  | cutForward => False
  | cutBackward => False
  | _ => True

namespace ExchangeStage

variable {backend : Backend} {parties : P2pParties} {exchange : P2pExchange}
variable (connecting : Presentable backend parties.connecting)
  (accepting : Presentable backend parties.accepting)

include connecting in
theorem connectorSend_opened
    {written : Nat}
    (whole : helloSize ≤ written) :
    P2pExchange.connectorSend backend parties written {} =
      { connector := .awaiting
        forward := { inFlight := helloBytes parties.connecting } } := by
  unfold P2pExchange.connectorSend
  dsimp only
  rw [sendHandshake_eq connecting, if_pos whole]
  rfl

include accepting in
theorem acceptorSend_replying
    {written : Nat}
    (whole : helloSize ≤ written) :
    P2pExchange.acceptorSend backend parties written {
        connector := .awaiting
        acceptor := .replying parties.connecting } =
      { connector := .awaiting
        acceptor := .connected parties.connecting
        backward := { inFlight := helloBytes parties.accepting } } := by
  unfold P2pExchange.acceptorSend
  dsimp only
  rw [sendHandshake_eq accepting, if_pos whole]
  rfl

/-- What an open pipe has delivered of an introduction is all or too little. -/
theorem delivered_cases
    {handshake : P2pHandshake}
    {pipe : Pipe UInt8}
    (isOpen : pipe.closed = false)
    (carries : pipe.content = helloBytes handshake) :
    pipe = { arrived := helloBytes handshake } ∨
      ∀ localHandshake,
        receiveHandshake backend localHandshake pipe = none := by
  have isPart : pipe.arrived <+: helloBytes handshake :=
    carries ▸ List.prefix_append _ _
  rcases lt_or_ge pipe.arrived.length helloSize with short | whole
  · right
    intro localHandshake
    have waits : pipe.ended = false := by
      rw [Pipe.ended, isOpen]
      rfl
    rw [receiveHandshake_part isPart short, if_pos waits]
  · left
    have arrived : pipe.arrived = helloBytes handshake :=
      isPart.eq_of_length_le (by rwa [length_helloBytes])
    have nothing : pipe.inFlight = [] := by
      have length := congrArg List.length carries
      rw [Pipe.content, List.length_append, arrived] at length
      exact List.length_eq_zero_iff.mp (by omega)
    cases pipe
    cases isOpen
    cases arrived
    cases nothing
    rfl

include connecting accepting in
/-- The acceptor goes on exactly when the parties are compatible. -/
theorem acceptorReceive_arrived :
    let next :=
      P2pExchange.acceptorReceive backend parties {
        connector := .awaiting
        forward := { arrived := helloBytes parties.connecting } }
    ExchangeStage parties next ∧ next.acceptor ≠ .awaiting := by
  unfold P2pExchange.acceptorReceive
  dsimp only
  rw [receiveHandshake_whole rfl]
  by_cases compatible : Compatible parties.connecting parties.accepting
  · rw [(readHandshake_helloEnvelope connecting accepting).mpr
      ⟨rfl, compatible⟩]
    exact ⟨.accepted compatible, by rintro ⟨⟩⟩
  · cases read :
        readHandshake backend parties.accepting
          (helloEnvelope parties.connecting) with
    | ok peer =>
        exact absurd
          ((readHandshake_helloEnvelope connecting accepting).mp read).2
          compatible
    | error refusal => exact ⟨.refused refusal compatible, by rintro ⟨⟩⟩

include connecting accepting in
theorem connectorReceive_arrived
    (compatible : Compatible parties.connecting parties.accepting) :
    P2pExchange.connectorReceive backend parties {
        connector := .awaiting
        acceptor := .connected parties.connecting
        backward := { arrived := helloBytes parties.accepting } } =
      { connector := .connected parties.accepting
        acceptor := .connected parties.connecting } := by
  unfold P2pExchange.connectorReceive
  dsimp only
  rw [receiveHandshake_whole rfl,
    (readHandshake_helloEnvelope accepting connecting).mpr
      ⟨rfl, compatible.symm⟩]

theorem connectorReceive_refused (refusal : Exception) :
    P2pExchange.connectorReceive backend parties {
        connector := .awaiting
        acceptor := .failed refusal
        backward := { closed := true } } =
      { connector := .failed socketClosed
        acceptor := .failed refusal
        forward := { closed := true }
        backward := { closed := true } } :=
  rfl

include connecting accepting in
/-- Without faults each step keeps its stage or moves on to the next one. -/
theorem step
    (stage : ExchangeStage parties exchange)
    {step : ExchangeStep}
    (faultless : step.Faultless) :
    ExchangeStage parties (step.run backend parties exchange) := by
  cases step with
  | connectorSend written =>
      cases stage with
      | opened =>
          rw [ExchangeStep.run, connectorSend_opened connecting faultless]
          exact .introduced _ rfl rfl
      | introduced forward isOpen carries =>
          exact .introduced forward isOpen carries
      | accepted compatible => exact .accepted compatible
      | answered compatible backward isOpen carries =>
          exact .answered compatible backward isOpen carries
      | finished compatible => exact .finished compatible
      | refused refusal incompatible => exact .refused refusal incompatible
      | ended refusal incompatible => exact .ended refusal incompatible
  | acceptorReceive =>
      cases stage with
      | opened => exact .opened
      | introduced forward isOpen carries =>
          rcases @delivered_cases backend _ _ isOpen carries with
            rfl | waits
          · exact (acceptorReceive_arrived connecting accepting).1
          · rw [ExchangeStep.run, P2pExchange.acceptorReceive]
            dsimp only
            rw [waits]
            exact .introduced forward isOpen carries
      | accepted compatible => exact .accepted compatible
      | answered compatible backward isOpen carries =>
          exact .answered compatible backward isOpen carries
      | finished compatible => exact .finished compatible
      | refused refusal incompatible => exact .refused refusal incompatible
      | ended refusal incompatible => exact .ended refusal incompatible
  | acceptorSend written =>
      cases stage with
      | opened => exact .opened
      | introduced forward isOpen carries =>
          exact .introduced forward isOpen carries
      | accepted compatible =>
          rw [ExchangeStep.run, acceptorSend_replying accepting faultless]
          exact .answered compatible _ rfl rfl
      | answered compatible backward isOpen carries =>
          exact .answered compatible backward isOpen carries
      | finished compatible => exact .finished compatible
      | refused refusal incompatible => exact .refused refusal incompatible
      | ended refusal incompatible => exact .ended refusal incompatible
  | connectorReceive =>
      cases stage with
      | opened => exact .opened
      | introduced forward isOpen carries =>
          exact .introduced forward isOpen carries
      | accepted compatible => exact .accepted compatible
      | answered compatible backward isOpen carries =>
          rcases @delivered_cases backend _ _ isOpen carries with
            rfl | waits
          · rw [ExchangeStep.run,
              connectorReceive_arrived connecting accepting compatible]
            exact .finished compatible
          · rw [ExchangeStep.run, P2pExchange.connectorReceive]
            dsimp only
            rw [waits]
            exact .answered compatible backward isOpen carries
      | finished compatible => exact .finished compatible
      | refused refusal incompatible =>
          rw [ExchangeStep.run, connectorReceive_refused]
          exact .ended refusal incompatible
      | ended refusal incompatible => exact .ended refusal incompatible
  | deliverForward count =>
      cases stage with
      | opened =>
          rw [ExchangeStep.run, Pipe.deliver_empty]
          exact .opened
      | introduced forward isOpen carries =>
          exact .introduced _ isOpen (by rw [Pipe.content_deliver, carries])
      | accepted compatible =>
          rw [ExchangeStep.run, Pipe.deliver_empty]
          exact .accepted compatible
      | answered compatible backward isOpen carries =>
          rw [ExchangeStep.run, Pipe.deliver_empty]
          exact .answered compatible backward isOpen carries
      | finished compatible =>
          rw [ExchangeStep.run, Pipe.deliver_empty]
          exact .finished compatible
      | refused refusal incompatible =>
          rw [ExchangeStep.run, Pipe.deliver_empty]
          exact .refused refusal incompatible
      | ended refusal incompatible =>
          rw [ExchangeStep.run, Pipe.deliver_empty]
          exact .ended refusal incompatible
  | deliverBackward count =>
      cases stage with
      | opened =>
          rw [ExchangeStep.run, Pipe.deliver_empty]
          exact .opened
      | introduced forward isOpen carries =>
          rw [ExchangeStep.run, Pipe.deliver_empty]
          exact .introduced forward isOpen carries
      | accepted compatible =>
          rw [ExchangeStep.run, Pipe.deliver_empty]
          exact .accepted compatible
      | answered compatible backward isOpen carries =>
          exact .answered compatible _ isOpen
            (by rw [Pipe.content_deliver, carries])
      | finished compatible =>
          rw [ExchangeStep.run, Pipe.deliver_empty]
          exact .finished compatible
      | refused refusal incompatible =>
          rw [ExchangeStep.run, Pipe.deliver_empty]
          exact .refused refusal incompatible
      | ended refusal incompatible =>
          rw [ExchangeStep.run, Pipe.deliver_empty]
          exact .ended refusal incompatible
  | cutForward => exact faultless.elim
  | cutBackward => exact faultless.elim

include connecting accepting in
theorem run
    (stage : ExchangeStage parties exchange)
    {steps : List ExchangeStep}
    (faultless : ∀ step ∈ steps, step.Faultless) :
    ExchangeStage parties (runExchange backend parties steps exchange) := by
  induction steps generalizing exchange with
  | nil => exact stage
  | cons first rest inductionHypothesis =>
      exact inductionHypothesis
        (stage.step connecting accepting
          (faultless first List.mem_cons_self))
        (fun step member => faultless step (List.mem_cons_of_mem _ member))

end ExchangeStage

/-- Each party takes its turn, and all that is on its way arrives. -/
def closingSteps : List ExchangeStep :=
  [ .connectorSend helloSize, .deliverForward helloSize, .acceptorReceive
  , .acceptorSend helloSize, .deliverBackward helloSize, .connectorReceive ]

/-- Compatible parties know each other; others have both given up. -/
def P2pExchange.Settled
    (parties : P2pParties)
    (exchange : P2pExchange) :
    Prop :=
  (Compatible parties.connecting parties.accepting ∧
      exchange.connector = .connected parties.accepting ∧
      exchange.acceptor = .connected parties.connecting) ∨
    (¬ Compatible parties.connecting parties.accepting ∧
      ∃ refusal,
        exchange.connector = .failed socketClosed ∧
        exchange.acceptor = .failed refusal)

namespace ExchangeStage

variable {backend : Backend} {parties : P2pParties} {exchange : P2pExchange}
variable (connecting : Presentable backend parties.connecting)
  (accepting : Presentable backend parties.accepting)

include connecting accepting in
/-- An answer on its way back is delivered and accepted. -/
theorem settles_answered
    (compatible : Compatible parties.connecting parties.accepting)
    {backward : Pipe UInt8}
    (isOpen : backward.closed = false)
    (carries : backward.content = helloBytes parties.accepting) :
    P2pExchange.Settled parties
      (runExchange backend parties
        [.deliverBackward helloSize, .connectorReceive] {
          connector := .awaiting
          acceptor := .connected parties.connecting
          backward }) := by
  have delivered :
      backward.deliver helloSize =
        { arrived := helloBytes parties.accepting } := by
    rw [Pipe.deliver_all isOpen (by rw [carries, length_helloBytes]), carries]
  unfold runExchange
  simp only [List.foldl_cons, List.foldl_nil, ExchangeStep.run]
  rw [delivered, connectorReceive_arrived connecting accepting compatible]
  exact .inl ⟨compatible, rfl, rfl⟩

include connecting accepting in
/-- Once the acceptor has received, the way back settles the exchange. -/
theorem settles_received
    (stage : ExchangeStage parties exchange)
    (received : exchange.acceptor ≠ .awaiting) :
    P2pExchange.Settled parties
      (runExchange backend parties
        [.acceptorSend helloSize, .deliverBackward helloSize,
          .connectorReceive] exchange) := by
  unfold runExchange
  rw [List.foldl_cons]
  cases stage with
  | opened => exact absurd rfl received
  | introduced forward isOpen carries => exact absurd rfl received
  | accepted compatible =>
      rw [ExchangeStep.run, acceptorSend_replying accepting (le_refl _)]
      exact settles_answered connecting accepting compatible rfl rfl
  | answered compatible backward isOpen carries =>
      exact settles_answered connecting accepting compatible isOpen carries
  | finished compatible => exact .inl ⟨compatible, rfl, rfl⟩
  | refused refusal incompatible =>
      exact .inr ⟨incompatible, refusal, rfl, rfl⟩
  | ended refusal incompatible =>
      exact .inr ⟨incompatible, refusal, rfl, rfl⟩

include connecting accepting in
/-- An introduction on its way is delivered and answered. -/
theorem settles_introduced
    {forward : Pipe UInt8}
    (isOpen : forward.closed = false)
    (carries : forward.content = helloBytes parties.connecting) :
    P2pExchange.Settled parties
      (runExchange backend parties closingSteps.tail {
        connector := .awaiting
        forward }) := by
  have delivered :
      forward.deliver helloSize =
        { arrived := helloBytes parties.connecting } := by
    rw [Pipe.deliver_all isOpen (by rw [carries, length_helloBytes]), carries]
  unfold runExchange closingSteps
  rw [List.tail_cons, List.foldl_cons, List.foldl_cons]
  simp only [ExchangeStep.run]
  rw [delivered]
  obtain ⟨stage, received⟩ :=
    @acceptorReceive_arrived backend parties connecting accepting
  exact settles_received connecting accepting stage received

include connecting accepting in
/-- From every stage the closing steps settle the exchange. -/
theorem settles
    (stage : ExchangeStage parties exchange) :
    P2pExchange.Settled parties
      (runExchange backend parties closingSteps exchange) := by
  have later
      (received : exchange.acceptor ≠ .awaiting)
      (idle :
        runExchange backend parties (closingSteps.take 3) exchange =
          exchange) :
      P2pExchange.Settled parties
        (runExchange backend parties closingSteps exchange) := by
    have settled := settles_received connecting accepting stage received
    rw [← idle] at settled
    unfold runExchange at settled ⊢
    rwa [← List.foldl_append] at settled
  cases stage with
  | opened =>
      unfold runExchange closingSteps
      rw [List.foldl_cons, ExchangeStep.run,
        connectorSend_opened connecting (le_refl _)]
      exact settles_introduced connecting accepting rfl rfl
  | introduced forward isOpen carries =>
      exact settles_introduced connecting accepting isOpen carries
  | accepted compatible => exact later (by rintro ⟨⟩) rfl
  | answered compatible backward isOpen carries =>
      exact later (by rintro ⟨⟩) rfl
  | finished compatible => exact later (by rintro ⟨⟩) rfl
  | refused refusal incompatible => exact later (by rintro ⟨⟩) rfl
  | ended refusal incompatible => exact later (by rintro ⟨⟩) rfl

end ExchangeStage

/-- What the two parties know of each other after any run. -/
structure ExchangeLaws
    (backend : Backend)
    (parties : P2pParties)
    (steps : List ExchangeStep) :
    Prop where
  accepted :
    ∀ peer, (runExchange backend parties steps {}).acceptor.Accepts peer →
      peer = parties.connecting ∧
        Compatible parties.connecting parties.accepting
  agreed :
    ∀ peer,
      (runExchange backend parties steps {}).connector = .connected peer →
        peer = parties.accepting ∧
        (runExchange backend parties steps {}).acceptor =
          .connected parties.connecting
  settles :
    (∀ step ∈ steps, step.Faultless) →
      P2pExchange.Settled parties
        (runExchange backend parties (steps ++ closingSteps) {})

/--
In every run the acceptor accepts only the node that introduced itself, and a
connected connector was accepted by the node it knows.  While nothing fails on
the way, the parties can still reach each other exactly when they are compatible.
-/
theorem runExchange_laws
    {backend : Backend}
    {connecting accepting : P2pHandshake}
    {boundPort : UInt16}
    {parties : P2pParties}
    (created :
      P2pParties.create backend connecting accepting boundPort = .ok parties)
    (steps : List ExchangeStep) :
    ExchangeLaws backend parties steps := by
  unfold P2pParties.create at created
  obtain ⟨listening, started, created⟩ := except_bind_eq_ok.mp created
  obtain ⟨dialing, normalized, created⟩ := except_bind_eq_ok.mp created
  cases created
  have acceptingPresentable := startedListener_presentable started
  have connectingPresentable := normalizedLocal_presentable normalized
  have coherent :=
    (@P2pExchange.start_coherent ⟨dialing, listening⟩).run
      connectingPresentable acceptingPresentable steps
  refine ⟨coherent.accepted, coherent.agreed, ?_⟩
  intro faultless
  have stage :=
    (@ExchangeStage.opened ⟨dialing, listening⟩).run
      connectingPresentable acceptingPresentable faultless
  unfold runExchange
  rw [List.foldl_append]
  exact stage.settles connectingPresentable acceptingPresentable

/-- Two nodes of one sidechain, the second on a port of the system's choice. -/
def sampleParties : P2pParties where
  connecting := { nodeId := 1, sidechainId := 7 }
  accepting := { nodeId := 2, sidechainId := 7, listenPort := 4000 }

theorem sampleParties_created :
    P2pParties.create sampleBackend
        { nodeId := 1, sidechainId := 7 } { nodeId := 2, sidechainId := 7 }
        4000 = .ok sampleParties := by
  rfl

/-- The introduction arrives in two pieces, between which the acceptor waits. -/
theorem sampleExchange_laws :
    ExchangeLaws sampleBackend sampleParties
      [.connectorSend 127, .deliverForward 20, .acceptorReceive,
        .deliverForward 107, .acceptorReceive, .acceptorSend 127] :=
  runExchange_laws sampleParties_created _

end ZanoP2pool
