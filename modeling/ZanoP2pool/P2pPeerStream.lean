import ZanoP2pool.P2pConnection

namespace ZanoP2pool

open Foundation

/-!
# Messages between peers

After the handshake a peer sends whole envelopes under a lock, and the other one's
loop takes them off the byte stream.  Whatever breaks, the envelopes handed to the
handler are the first of those sent; while nothing breaks, all of them get there.
-/

/-- One direction of a connection, with what was sent and handled so far. -/
structure PeerStream where
  alive : Bool := true
  pipe : Pipe UInt8 := {}
  reading : Bool := true
  sent : List P2pEnvelope := []
  handled : List P2pEnvelope := []
  deriving Repr, DecidableEq

namespace PeerStream

/-- The sending peer gives up; the socket is shut down. -/
def shutdown (stream : PeerStream) : PeerStream :=
  { stream with alive := false, pipe := stream.pipe.close }

/-- `send_peer`, of whose bytes the socket takes `written` at most. -/
def sendPeer
    (envelope : P2pEnvelope)
    (written : Nat)
    (stream : PeerStream) :
    Bool × PeerStream :=
  if stream.alive = false then
    (false, stream)
  else
    match serializeP2pEnvelope envelope with
    | .error _ => (false, stream.shutdown)
    | .ok bytes =>
        if bytes.length ≤ written then
          (true,
            { stream with
              pipe := stream.pipe.write bytes
              sent := stream.sent ++ [envelope] })
        else
          (false,
            shutdown { stream with
              pipe := stream.pipe.write (bytes.take written) })

/-- One turn of `peer_loop`; the limiter and the handler answer for themselves. -/
def peerLoop
    (withinLimit handlerReturns : Bool)
    (stream : PeerStream) :
    PeerStream :=
  if stream.reading = false then
    stream
  else
    match receiveEnvelope stream.pipe.arrived with
    | .error thrown =>
        if thrown = socketClosed ∧ stream.pipe.ended = false then
          stream
        else
          { stream with reading := false }
    | .ok (envelope, rest) =>
        if withinLimit = false then
          { stream with
            pipe := { stream.pipe with arrived := rest }
            reading := false }
        else
          { stream with
            pipe := { stream.pipe with arrived := rest }
            handled := stream.handled ++ [envelope]
            reading := handlerReturns }

end PeerStream

/-- What the sender, the reader and the network do. -/
inductive StreamStep where
  | send (envelope : P2pEnvelope) (written : Nat)
  | receive (withinLimit handlerReturns : Bool)
  | deliver (count : Nat)
  | cut
  | shutdown
  | stopReading
  deriving Repr, DecidableEq

def StreamStep.run (stream : PeerStream) : StreamStep → PeerStream
  | send envelope written => (stream.sendPeer envelope written).2
  | receive withinLimit handlerReturns =>
      stream.peerLoop withinLimit handlerReturns
  | deliver count => { stream with pipe := stream.pipe.deliver count }
  | cut => { stream with pipe := stream.pipe.cut }
  | shutdown => stream.shutdown
  | stopReading => { stream with reading := false }

def runStream (steps : List StreamStep) (stream : PeerStream) : PeerStream :=
  steps.foldl StreamStep.run stream

section Frames

variable {envelope other : P2pEnvelope} {rest later : List UInt8}

/-- Where a stream starts with a frame, it starts with no other one. -/
theorem frame_unique
    (first : Transportable envelope)
    (second : Transportable other)
    (same : envelopeBytes envelope ++ rest = envelopeBytes other ++ later) :
    envelope = other ∧ rest = later := by
  have read : receiveEnvelope (envelopeBytes envelope ++ rest) =
      .ok (envelope, rest) :=
    receiveEnvelope_eq_ok.mpr ⟨first, rfl⟩
  rw [receiveEnvelope_eq_ok.mpr ⟨second, same⟩] at read
  cases read
  exact ⟨rfl, rfl⟩

/-- The beginning of a frame that was not sent to its end. -/
def Truncated (tail : List UInt8) : Prop :=
  ∃ envelope,
    Transportable envelope ∧ tail <+: envelopeBytes envelope ∧
      tail.length < (envelopeBytes envelope).length

theorem truncated_nil : Truncated [] :=
  ⟨{}, ⟨rfl, rfl, Nat.zero_le _⟩, List.nil_prefix, by decide⟩

/-- No frame is read from a truncated one. -/
theorem not_frame_of_truncated
    {tail : List UInt8}
    (truncated : Truncated tail)
    (transportable : Transportable envelope)
    (isPart : envelopeBytes envelope ++ rest <+: tail) :
    False := by
  obtain ⟨whole, wholeTransportable, tailPart, short⟩ := truncated
  obtain ⟨missing, complete⟩ := isPart.trans tailPart
  rw [List.append_assoc] at complete
  obtain ⟨rfl, _⟩ :=
    frame_unique transportable wholeTransportable
      (complete.trans (List.append_nil _).symm)
  have long := isPart.length_le
  rw [List.length_append] at long
  omega

end Frames

namespace PeerStream

/-- What a pipe holds of the envelopes still to be handled. -/
structure Holds
    (alive : Bool)
    (pipe : Pipe UInt8)
    (pending : List P2pEnvelope) :
    Prop where
  exact :
    pipe.closed = false → pipe.content = pending.flatMap envelopeBytes
  within :
    ∃ tail,
      Truncated tail ∧ (alive = true → tail = []) ∧
        pipe.content <+: pending.flatMap envelopeBytes ++ tail

section Holds

variable {alive : Bool} {pipe next : Pipe UInt8} {pending : List P2pEnvelope}

/-- A pipe that has ended holds a part of what it held. -/
theorem Holds.fewer
    (holds : Holds alive pipe pending)
    {after : Bool}
    (stays : after = true → alive = true)
    (closed : next.closed = true)
    (part : next.content <+: pipe.content) :
    Holds after next pending where
  exact := by
    intro isOpen
    rw [closed] at isOpen
    cases isOpen
  within := by
    obtain ⟨tail, truncated, whole, within⟩ := holds.within
    exact ⟨tail, truncated, fun isAlive => whole (stays isAlive),
      part.trans within⟩

/-- A whole frame joins the envelopes to be handled, or is lost with its pipe. -/
theorem Holds.write
    (holds : Holds true pipe pending)
    (envelope : P2pEnvelope) :
    Holds true (pipe.write (envelopeBytes envelope))
      (pending ++ [envelope]) := by
  have flat :
      (pending ++ [envelope]).flatMap envelopeBytes =
        pending.flatMap envelopeBytes ++ envelopeBytes envelope := by
    rw [List.flatMap_append, List.flatMap_singleton]
  constructor
  case exact =>
    intro isOpen
    by_cases closed : pipe.closed = true
    · rw [Pipe.write, if_pos closed, closed] at isOpen
      cases isOpen
    · rw [flat, Pipe.write, if_neg closed, Pipe.content, ← List.append_assoc,
        ← holds.exact (by simpa using closed)]
      rfl
  case within =>
    refine ⟨[], truncated_nil, fun _ => rfl, ?_⟩
    obtain ⟨tail, _, whole, within⟩ := holds.within
    rw [whole rfl, List.append_nil] at within
    rw [List.append_nil, flat]
    by_cases closed : pipe.closed = true
    · rw [Pipe.write, if_pos closed]
      exact within.trans (List.prefix_append _ _)
    · have before := holds.exact (by simpa using closed)
      rw [← before]
      exact Pipe.content_write _

/-- A frame that is sent in part is the last of its pipe. -/
theorem Holds.truncate
    (holds : Holds true pipe pending)
    {envelope : P2pEnvelope}
    (transportable : Transportable envelope)
    {written : Nat}
    (short : written < (envelopeBytes envelope).length) :
    Holds false (pipe.write ((envelopeBytes envelope).take written)).close
      pending where
  exact := by rintro ⟨⟩
  within := by
    obtain ⟨tail, truncated, whole, within⟩ := holds.within
    rw [whole rfl, List.append_nil] at within
    rw [Pipe.content_close]
    by_cases closed : pipe.closed = true
    · rw [Pipe.write, if_pos closed]
      refine ⟨[], truncated_nil, by rintro ⟨⟩, ?_⟩
      rwa [List.append_nil]
    · refine ⟨_, ⟨envelope, transportable, List.take_prefix written _, ?_⟩,
        by rintro ⟨⟩, ?_⟩
      · rw [List.length_take]
        omega
      · rw [← holds.exact (by simpa using closed)]
        exact Pipe.content_write _

/-- The frame that a reader takes is that of the next envelope. -/
theorem Holds.read
    (holds : Holds alive pipe pending)
    (transportable : ∀ envelope ∈ pending, Transportable envelope)
    {envelope : P2pEnvelope}
    {rest : List UInt8}
    (received : receiveEnvelope pipe.arrived = .ok (envelope, rest)) :
    ∃ later,
      pending = envelope :: later ∧
        Holds alive { pipe with arrived := rest } later := by
  obtain ⟨isFrame, arrived⟩ := receiveEnvelope_eq_ok.mp received
  have content :
      pipe.content = envelopeBytes envelope ++ (rest ++ pipe.inFlight) := by
    rw [Pipe.content, arrived, List.append_assoc]
  obtain ⟨tail, truncated, whole, within⟩ := holds.within
  rw [content] at within
  cases pending with
  | nil => exact (not_frame_of_truncated truncated isFrame within).elim
  | cons first later =>
      have firstFrame := transportable first List.mem_cons_self
      rw [List.flatMap_cons, List.append_assoc] at within
      obtain ⟨missing, complete⟩ := within
      rw [List.append_assoc] at complete
      obtain ⟨rfl, others⟩ := frame_unique isFrame firstFrame complete
      refine ⟨later, rfl, ?_, tail, truncated, whole, missing, others⟩
      intro isOpen
      have exact := holds.exact isOpen
      rw [content, List.flatMap_cons] at exact
      exact List.append_cancel_left exact

end Holds

/-- What was handled is the first of what was sent; a reader will find the rest. -/
structure InOrder (stream : PeerStream) : Prop where
  transportable : ∀ envelope ∈ stream.sent, Transportable envelope
  handled : stream.handled <+: stream.sent
  pending :
    stream.reading = true →
      ∃ pending,
        stream.sent = stream.handled ++ pending ∧
          Holds stream.alive stream.pipe pending

section Steps

variable {stream : PeerStream}

theorem InOrder.shutdown (inOrder : stream.InOrder) :
    stream.shutdown.InOrder where
  transportable := inOrder.transportable
  handled := inOrder.handled
  pending := by
    intro reading
    obtain ⟨pending, split, holds⟩ := inOrder.pending reading
    exact ⟨pending, split,
      holds.fewer (by rintro ⟨⟩) rfl (List.prefix_refl _)⟩

theorem InOrder.sendPeer
    (inOrder : stream.InOrder)
    (envelope : P2pEnvelope)
    (written : Nat) :
    (stream.sendPeer envelope written).2.InOrder := by
  unfold PeerStream.sendPeer
  by_cases dead : stream.alive = false
  · rw [if_pos dead]
    exact inOrder
  rw [if_neg dead]
  have alive : stream.alive = true := by simpa using dead
  cases serialized : serializeP2pEnvelope envelope with
  | error thrown => exact inOrder.shutdown
  | ok bytes =>
      obtain ⟨isFrame, rfl⟩ := serializeP2pEnvelope_eq_ok.mp serialized
      dsimp only
      split_ifs with whole
      · constructor
        case transportable =>
          intro other member
          rcases List.mem_append.mp member with before | last
          · exact inOrder.transportable other before
          · rw [List.mem_singleton.mp last]
            exact isFrame
        case handled =>
          exact inOrder.handled.trans (List.prefix_append _ _)
        case pending =>
          intro reading
          obtain ⟨pending, split, holds⟩ := inOrder.pending reading
          rw [alive] at holds
          refine ⟨pending ++ [envelope], ?_, ?_⟩
          · rw [← List.append_assoc, ← split]
          · change Holds stream.alive _ _
            rw [alive]
            exact holds.write envelope
      · constructor
        case transportable => exact inOrder.transportable
        case handled => exact inOrder.handled
        case pending =>
          intro reading
          obtain ⟨pending, split, holds⟩ := inOrder.pending reading
          rw [alive] at holds
          exact ⟨pending, split, holds.truncate isFrame (not_le.mp whole)⟩

theorem InOrder.stopReading
    (inOrder : stream.InOrder)
    (pipe : Pipe UInt8) :
    InOrder { stream with pipe, reading := false } where
  transportable := inOrder.transportable
  handled := inOrder.handled
  pending := by rintro ⟨⟩

theorem InOrder.peerLoop
    (inOrder : stream.InOrder)
    (withinLimit handlerReturns : Bool) :
    (stream.peerLoop withinLimit handlerReturns).InOrder := by
  unfold PeerStream.peerLoop
  by_cases stopped : stream.reading = false
  · rw [if_pos stopped]
    exact inOrder
  rw [if_neg stopped]
  cases received : receiveEnvelope stream.pipe.arrived with
  | error thrown =>
      dsimp only
      split_ifs
      · exact inOrder
      · exact inOrder.stopReading stream.pipe
  | ok result =>
      obtain ⟨envelope, rest⟩ := result
      obtain ⟨pending, split, holds⟩ :=
        inOrder.pending (by simpa using stopped)
      have frames : ∀ other ∈ pending, Transportable other := by
        intro other member
        refine inOrder.transportable other ?_
        rw [split]
        exact List.mem_append_right _ member
      obtain ⟨later, rfl, holdsLater⟩ := holds.read frames received
      have splitLater :
          stream.sent = stream.handled ++ [envelope] ++ later := by
        rw [List.append_assoc]
        exact split
      dsimp only
      split_ifs
      · exact inOrder.stopReading _
      · exact {
          transportable := inOrder.transportable
          handled := ⟨later, splitLater.symm⟩
          pending := fun _ => ⟨later, splitLater, holdsLater⟩ }

/-- Every step keeps the order. -/
theorem InOrder.step
    (inOrder : stream.InOrder)
    (step : StreamStep) :
    (step.run stream).InOrder := by
  cases step with
  | send envelope written => exact inOrder.sendPeer envelope written
  | receive withinLimit handlerReturns =>
      exact inOrder.peerLoop withinLimit handlerReturns
  | deliver count =>
      refine ⟨inOrder.transportable, inOrder.handled, ?_⟩
      intro reading
      obtain ⟨pending, split, holds⟩ := inOrder.pending reading
      refine ⟨pending, split, ?_, ?_⟩
      · intro isOpen
        rw [StreamStep.run, Pipe.content_deliver]
        exact holds.exact isOpen
      · rw [StreamStep.run, Pipe.content_deliver]
        exact holds.within
  | cut =>
      refine ⟨inOrder.transportable, inOrder.handled, ?_⟩
      intro reading
      obtain ⟨pending, split, holds⟩ := inOrder.pending reading
      exact ⟨pending, split,
        holds.fewer (fun isAlive => isAlive) rfl Pipe.content_cut⟩
  | shutdown => exact inOrder.shutdown
  | stopReading => exact inOrder.stopReading stream.pipe

theorem InOrder.run
    (inOrder : stream.InOrder)
    (steps : List StreamStep) :
    (runStream steps stream).InOrder := by
  induction steps generalizing stream with
  | nil => exact inOrder
  | cons step rest inductionHypothesis =>
      exact inductionHypothesis (inOrder.step step)

theorem start_inOrder : InOrder {} where
  transportable := by
    intro envelope member
    cases member
  handled := List.prefix_refl _
  pending := fun _ =>
    ⟨[], rfl, fun _ => rfl, [], truncated_nil, fun _ => rfl,
      List.prefix_refl _⟩

end Steps

/-- Neither side has given up, and the link is whole. -/
structure Whole (stream : PeerStream) : Prop where
  alive : stream.alive = true
  reading : stream.reading = true
  isOpen : stream.pipe.closed = false

end PeerStream

/-- The socket takes all that is sent, and nobody gives up. -/
def StreamStep.Faultless : StreamStep → Prop
  | send envelope written =>
      Transportable envelope ∧ (envelopeBytes envelope).length ≤ written
  | receive withinLimit handlerReturns =>
      withinLimit = true ∧ handlerReturns = true
  | deliver _ => True
  | _ => False

/-- The envelope that a step is asked to send. -/
def StreamStep.envelope? : StreamStep → Option P2pEnvelope
  | send envelope _ => some envelope
  | _ => none

namespace PeerStream

section Faultless

variable {stream : PeerStream} {envelope : P2pEnvelope}

/-- What has arrived starts with the next frame, or the reader waits for more. -/
theorem receiveEnvelope_cases
    {pending : List P2pEnvelope}
    {arrived : List UInt8}
    (frames : ∀ envelope ∈ pending, Transportable envelope)
    (isPart : arrived <+: pending.flatMap envelopeBytes) :
    (∃ envelope rest, receiveEnvelope arrived = .ok (envelope, rest)) ∨
      receiveEnvelope arrived = .error socketClosed := by
  cases pending with
  | nil =>
      right
      rw [List.prefix_nil.mp isPart]
      rfl
  | cons first later =>
      have firstFrame := frames first List.mem_cons_self
      rw [List.flatMap_cons] at isPart
      have starts :
          envelopeBytes first <+:
            envelopeBytes first ++ later.flatMap envelopeBytes :=
        List.prefix_append _ _
      rcases lt_or_ge arrived.length (envelopeBytes first).length with
        short | long
      · right
        exact receiveEnvelope_part firstFrame
          (List.prefix_of_prefix_length_le isPart starts short.le) short
      · left
        obtain ⟨rest, whole⟩ :=
          List.prefix_of_prefix_length_le starts isPart long
        exact ⟨first, rest,
          receiveEnvelope_eq_ok.mpr ⟨firstFrame, whole.symm⟩⟩

/-- Without faults a stream stays whole and sends what it is given. -/
theorem Whole.step
    (whole : stream.Whole)
    (inOrder : stream.InOrder)
    {step : StreamStep}
    (faultless : step.Faultless) :
    (step.run stream).Whole ∧
      (step.run stream).sent = stream.sent ++ step.envelope?.toList := by
  cases step with
  | send envelope written =>
      obtain ⟨isFrame, fits⟩ := faultless
      have serialized :
          serializeP2pEnvelope envelope = .ok (envelopeBytes envelope) :=
        serializeP2pEnvelope_eq_ok.mpr ⟨isFrame, rfl⟩
      have isOpen : ¬ stream.pipe.closed = true := by simp [whole.isOpen]
      rw [StreamStep.run, PeerStream.sendPeer, if_neg (by simp [whole.alive]),
        serialized]
      dsimp only
      rw [if_pos fits, Pipe.write, if_neg isOpen]
      exact ⟨⟨whole.alive, whole.reading, whole.isOpen⟩, rfl⟩
  | receive withinLimit handlerReturns =>
      obtain ⟨rfl, rfl⟩ := faultless
      obtain ⟨pending, split, holds⟩ := inOrder.pending whole.reading
      have frames : ∀ other ∈ pending, Transportable other := by
        intro other member
        refine inOrder.transportable other ?_
        rw [split]
        exact List.mem_append_right _ member
      have isPart : stream.pipe.arrived <+: pending.flatMap envelopeBytes := by
        rw [← holds.exact whole.isOpen]
        exact List.prefix_append _ _
      rw [StreamStep.run, PeerStream.peerLoop, if_neg (by simp [whole.reading])]
      rcases receiveEnvelope_cases frames isPart with
        ⟨envelope, rest, received⟩ | waits
      · rw [received]
        exact ⟨⟨whole.alive, rfl, whole.isOpen⟩, (List.append_nil _).symm⟩
      · have unended : stream.pipe.ended = false := by
          rw [Pipe.ended, whole.isOpen]
          rfl
        rw [waits]
        dsimp only
        rw [if_pos ⟨rfl, unended⟩]
        exact ⟨whole, (List.append_nil _).symm⟩
  | deliver count =>
      exact ⟨⟨whole.alive, whole.reading, whole.isOpen⟩,
        (List.append_nil _).symm⟩
  | cut => exact faultless.elim
  | shutdown => exact faultless.elim
  | stopReading => exact faultless.elim

theorem Whole.run
    (whole : stream.Whole)
    (inOrder : stream.InOrder)
    {steps : List StreamStep}
    (faultless : ∀ step ∈ steps, step.Faultless) :
    (runStream steps stream).Whole ∧
      (runStream steps stream).sent =
        stream.sent ++ steps.filterMap StreamStep.envelope? := by
  induction steps generalizing stream with
  | nil => exact ⟨whole, (List.append_nil _).symm⟩
  | cons step rest inductionHypothesis =>
      obtain ⟨wholeNext, sentNext⟩ :=
        whole.step inOrder (faultless step List.mem_cons_self)
      obtain ⟨wholeLater, sentLater⟩ :=
        inductionHypothesis wholeNext (inOrder.step step)
          (fun later member => faultless later (List.mem_cons_of_mem _ member))
      refine ⟨wholeLater, ?_⟩
      change (runStream rest (step.run stream)).sent = _
      rw [sentLater, sentNext, List.append_assoc]
      cases sends : step.envelope? with
      | none => rw [List.filterMap_cons_none sends, Option.toList_none,
          List.nil_append]
      | some envelope => rw [List.filterMap_cons_some sends,
          Option.toList_some, List.singleton_append]

/-- All frames that have arrived are handled, one at each turn of the loop. -/
theorem run_receives
    {pending : List P2pEnvelope}
    (frames : ∀ envelope ∈ pending, Transportable envelope)
    (alive : Bool)
    (sent handled : List P2pEnvelope) :
    runStream (List.replicate pending.length (.receive true true)) {
        alive
        pipe := { arrived := pending.flatMap envelopeBytes }
        sent
        handled } =
      { alive, sent, handled := handled ++ pending } := by
  induction pending generalizing handled with
  | nil => rw [List.append_nil]; rfl
  | cons first later inductionHypothesis =>
      have received :
          receiveEnvelope
              (envelopeBytes first ++ later.flatMap envelopeBytes) =
            .ok (first, later.flatMap envelopeBytes) :=
        receiveEnvelope_eq_ok.mpr ⟨frames first List.mem_cons_self, rfl⟩
      have handledLater :=
        inductionHypothesis
          (fun other member => frames other (List.mem_cons_of_mem _ member))
          (handled ++ [first])
      rw [List.append_assoc] at handledLater
      unfold runStream at handledLater ⊢
      rw [List.length_cons, List.replicate_succ, List.foldl_cons,
        StreamStep.run, PeerStream.peerLoop, if_neg (by simp),
        List.flatMap_cons, received]
      exact handledLater

end Faultless

/-- The network delivers what is on its way, and the reader catches up. -/
def drainSteps (stream : PeerStream) : List StreamStep :=
  .deliver stream.pipe.content.length ::
    List.replicate (stream.sent.length - stream.handled.length)
      (.receive true true)

/-- A reader that catches up with a whole stream handles all that was sent. -/
theorem run_drainSteps
    {stream : PeerStream}
    (whole : stream.Whole)
    (inOrder : stream.InOrder) :
    (runStream stream.drainSteps stream).handled = stream.sent := by
  obtain ⟨pending, split, holds⟩ := inOrder.pending whole.reading
  have frames : ∀ other ∈ pending, Transportable other := by
    intro other member
    refine inOrder.transportable other ?_
    rw [split]
    exact List.mem_append_right _ member
  have count : stream.sent.length - stream.handled.length = pending.length := by
    rw [split, List.length_append]
    omega
  have delivered :
      stream.pipe.deliver stream.pipe.content.length =
        { arrived := pending.flatMap envelopeBytes } := by
    rw [Pipe.deliver_all whole.isOpen (le_refl _), holds.exact whole.isOpen]
  have caughtUp := run_receives frames stream.alive stream.sent stream.handled
  unfold drainSteps runStream
  rw [List.foldl_cons, StreamStep.run, delivered, count, whole.reading]
  unfold runStream at caughtUp
  rw [caughtUp, split]

end PeerStream

/-- What a reader has handled after any run, and what it can still get. -/
structure StreamLaws (steps : List StreamStep) : Prop where
  inOrder : (runStream steps {}).handled <+: (runStream steps {}).sent
  complete :
    (∀ step ∈ steps, step.Faultless) →
      (runStream (runStream steps {}).drainSteps
          (runStream steps {})).handled =
        steps.filterMap StreamStep.envelope?

/--
In every run the handler gets the first of the envelopes that were sent, whole and
in order.  In a run without faults it gets all of them once they have arrived.
-/
theorem runStream_laws (steps : List StreamStep) : StreamLaws steps := by
  have inOrder := PeerStream.start_inOrder.run steps
  refine ⟨inOrder.handled, ?_⟩
  intro faultless
  obtain ⟨whole, sent⟩ :=
    (show PeerStream.Whole {} from ⟨rfl, rfl, rfl⟩).run
      PeerStream.start_inOrder faultless
  rw [PeerStream.run_drainSteps whole inOrder, sent]
  rfl

def sampleFirstEnvelope : P2pEnvelope where
  type := .tipAnnounce
  payload := [1, 2, 3]

def sampleSecondEnvelope : P2pEnvelope where
  type := .shareRequest
  payload := [4]

/-- The reader looks too early once, and the second envelope is still on its way. -/
def sampleStreamSteps : List StreamStep :=
  [ .send sampleFirstEnvelope 100
  , .deliver 10
  , .receive true true
  , .send sampleSecondEnvelope 100
  , .deliver 20
  , .receive true true ]

/-- The socket takes three bytes of the second envelope. -/
def sampleBrokenSteps : List StreamStep :=
  [ .send sampleFirstEnvelope 100
  , .send sampleSecondEnvelope 3
  , .deliver 100
  , .receive true true
  , .receive true true ]

/-- Without a break both envelopes get there, after a break the whole one does. -/
theorem runStream_laws_sample :
    (runStream sampleStreamSteps {}).handled = [sampleFirstEnvelope] ∧
      (runStream (runStream sampleStreamSteps {}).drainSteps
          (runStream sampleStreamSteps {})).handled =
        [sampleFirstEnvelope, sampleSecondEnvelope] ∧
      (runStream sampleBrokenSteps {}).handled = [sampleFirstEnvelope] ∧
      (runStream sampleBrokenSteps {}).handled <+:
        (runStream sampleBrokenSteps {}).sent := by
  have faultless : ∀ step ∈ sampleStreamSteps, step.Faultless := by
    simp only [sampleStreamSteps, List.forall_mem_cons]
    exact ⟨⟨⟨by decide, by decide, by decide⟩, by decide⟩, trivial, ⟨rfl, rfl⟩,
      ⟨⟨by decide, by decide, by decide⟩, by decide⟩, trivial, ⟨rfl, rfl⟩,
      by simp⟩
  exact ⟨by decide +kernel,
    (runStream_laws sampleStreamSteps).complete faultless, by decide +kernel,
    (runStream_laws sampleBrokenSteps).inOrder⟩

end ZanoP2pool
