import ZanoP2pool.P2pMessages
import ZanoP2pool.ShareBytes

namespace ZanoP2pool

open Foundation

/-!
# The P2P wire format is canonical

Each envelope and each payload has one encoding, and the readers accept exactly
the encodings.  The stream reader cuts a byte stream where the envelopes end, so
it accepts a frame exactly when the envelope reader accepts the bytes it took.
-/

section Envelopes

variable {envelope : P2pEnvelope} {bytes rest : List UInt8}

/-- The envelopes that can be sent. -/
structure Transportable (envelope : P2pEnvelope) : Prop where
  version : envelope.version = kP2pProtocolVersion
  flags : envelope.flags = 0
  size : envelope.payload.length ≤ kP2pMaxPayloadSize

/-- The bytes of an envelope. -/
def envelopeBytes (envelope : P2pEnvelope) : List UInt8 :=
  envelopeHeaderBytes envelope (UInt32.ofNat envelope.payload.length) ++
    envelope.payload

theorem p2pMessageTypeSupported_tag
    (type : P2pMessageType) :
    p2pMessageTypeSupported type.tag = true := by
  cases type <;> decide

theorem serializeP2pEnvelope_eq_ok :
    serializeP2pEnvelope envelope = .ok bytes ↔
      Transportable envelope ∧ bytes = envelopeBytes envelope := by
  unfold serializeP2pEnvelope
  simp only [throw, throwThe, MonadExceptOf.throw, except_guard_eq_ok,
    p2pMessageTypeSupported_tag, ne_eq, not_not, gt_iff_lt, not_lt, pure,
    Except.pure, Except.ok.injEq, Bool.not_true]
  constructor
  · rintro ⟨version, _, flags, size, rfl⟩
    exact ⟨⟨version, flags, size⟩, rfl⟩
  · rintro ⟨⟨version, flags, size⟩, rfl⟩
    exact ⟨version, by simp, flags, size, rfl⟩

theorem length_envelopeHeaderBytes
    (envelope : P2pEnvelope)
    (payloadSize : UInt32) :
    (envelopeHeaderBytes envelope payloadSize).length =
      kP2pEnvelopeHeaderSize := by
  simp [envelopeHeaderBytes, kP2pMagic, appendU16Be, appendU32Be,
    kP2pEnvelopeHeaderSize]

theorem readP2pEnvelope_eq_ok :
    readP2pEnvelope bytes = .ok (envelope, rest) ↔
      rest = [] ∧ Transportable envelope ∧ bytes = envelopeBytes envelope := by
  constructor
  · intro read
    unfold readP2pEnvelope at read
    obtain ⟨magic, bytes1, taken1, read1⟩ := cursor_bind_eq_ok.mp read
    obtain ⟨marked, read1⟩ := cursor_guard_eq_ok.mp read1
    obtain ⟨version, bytes2, taken2, read2⟩ := cursor_bind_eq_ok.mp read1
    obtain ⟨versioned, read2⟩ := cursor_guard_eq_ok.mp read2
    obtain ⟨typeValue, bytes3, taken3, read3⟩ := cursor_bind_eq_ok.mp read2
    cases typed : P2pMessageType.ofTag? typeValue with
    | none =>
        rw [typed] at read3
        exact absurd read3 cursor_throw_ne_ok
    | some type =>
        rw [typed] at read3
        obtain ⟨flags, bytes4, taken4, read4⟩ := cursor_bind_eq_ok.mp read3
        obtain ⟨plain, read4⟩ := cursor_guard_eq_ok.mp read4
        obtain ⟨payloadSize, payload, taken5, read5⟩ :=
          cursor_bind_eq_ok.mp read4
        obtain ⟨bounded, read5⟩ := cursor_guard_eq_ok.mp read5
        rw [cursor_get_bind] at read5
        obtain ⟨whole, read5⟩ := cursor_guard_eq_ok.mp read5
        obtain ⟨exact, read5⟩ := cursor_guard_eq_ok.mp read5
        cases read5
        obtain ⟨_, rfl⟩ := takeBytes_eq_ok.mp taken1
        obtain rfl := takeByte_eq_ok.mp taken2
        obtain rfl := takeByte_eq_ok.mp taken3
        obtain rfl := takeUInt16_eq_ok.mp taken4
        obtain rfl := takeUInt32_eq_ok.mp taken5
        obtain rfl := P2pMessageType.ofTag?_eq_some.mp typed
        obtain rfl := not_not.mp marked
        have sized : UInt32.ofNat payload.length = payloadSize := by
          have same : payload.length = payloadSize.toNat := by omega
          rw [same, UInt32.ofNat_toNat]
        refine ⟨rfl, ⟨not_not.mp versioned, not_not.mp plain, ?_⟩, ?_⟩
        · dsimp only
          omega
        · simp [envelopeBytes, envelopeHeaderBytes, sized, appendU16Be,
            appendU32Be]
  · rintro ⟨rfl, ⟨versioned, plain, bounded⟩, rfl⟩
    have sized := toNat_payloadSize bounded
    have shape :
        envelopeBytes envelope =
          kP2pMagic ++ (envelope.version :: envelope.type.tag ::
            (bigEndian 2 envelope.flags.toNat ++
              (bigEndian 4 (UInt32.ofNat envelope.payload.length).toNat ++
                envelope.payload))) := by
      simp [envelopeBytes, envelopeHeaderBytes, appendU16Be, appendU32Be]
    rw [shape]
    unfold readP2pEnvelope
    rw [cursor_bind_of_ok (takeBytes_append (by decide) _ _),
      if_neg (not_not_intro rfl),
      cursor_bind_of_ok (takeByte_eq_ok.mpr rfl),
      if_neg (not_not_intro versioned),
      cursor_bind_of_ok (takeByte_eq_ok.mpr rfl),
      P2pMessageType.ofTag?_eq_some.mpr rfl]
    dsimp only
    rw [cursor_bind_of_ok (takeUInt16_eq_ok.mpr rfl),
      if_neg (not_not_intro plain),
      cursor_bind_of_ok (takeUInt32_eq_ok.mpr rfl),
      if_neg (by omega), cursor_get_bind, if_neg (by omega),
      if_neg (by omega)]
    rfl

/-- The envelope reader accepts exactly the encodings. -/
theorem deserializeP2pEnvelope_eq_ok :
    deserializeP2pEnvelope bytes = .ok envelope ↔
      Transportable envelope ∧ bytes = envelopeBytes envelope := by
  unfold deserializeP2pEnvelope
  simp only [throw, throwThe, MonadExceptOf.throw, except_guard_eq_ok,
    cursor_run_eq_ok, readP2pEnvelope_eq_ok]
  constructor
  · rintro ⟨_, _, _, transportable, rfl⟩
    exact ⟨transportable, rfl⟩
  · rintro ⟨transportable, rfl⟩
    refine ⟨?_, [], rfl, transportable, rfl⟩
    rw [envelopeBytes, List.length_append, length_envelopeHeaderBytes]
    omega

end Envelopes

section Stream

variable {envelope : P2pEnvelope} {header stream rest : List UInt8}

/-- The announced header of an envelope passes, with its payload size. -/
theorem validateStreamHeader_envelopeHeaderBytes
    (transportable : Transportable envelope) :
    validateStreamHeader
        (envelopeHeaderBytes envelope
          (UInt32.ofNat envelope.payload.length)) =
      .ok (UInt32.ofNat envelope.payload.length) := by
  have sized := toNat_payloadSize transportable.size
  have shape :
      envelopeHeaderBytes envelope (UInt32.ofNat envelope.payload.length) =
        0x5a :: 0x50 :: 0x32 :: 0x50 :: envelope.version ::
          envelope.type.tag :: (appendU16Be envelope.flags ++
            appendU32Be (UInt32.ofNat envelope.payload.length)) := by
    simp [envelopeHeaderBytes, kP2pMagic]
  have flagBytes :
      headerU16Be
          (envelopeHeaderBytes envelope
            (UInt32.ofNat envelope.payload.length)) 6 = envelope.flags := by
    rw [shape, headerU16Be, List.drop_succ_cons, List.drop_succ_cons,
      List.drop_succ_cons, List.drop_succ_cons, List.drop_succ_cons,
      List.drop_succ_cons, List.drop_zero,
      List.take_left' (by simp [appendU16Be]), appendU16Be,
      ofBigEndian_bigEndian_of_lt envelope.flags.toNat_lt,
      UInt16.ofNat_toNat]
  have sizeBytes :
      headerU32Be
          (envelopeHeaderBytes envelope
            (UInt32.ofNat envelope.payload.length)) 8 =
        UInt32.ofNat envelope.payload.length := by
    have dropped :
        (envelopeHeaderBytes envelope
          (UInt32.ofNat envelope.payload.length)).drop 8 =
          appendU32Be (UInt32.ofNat envelope.payload.length) :=
      List.drop_left' (by simp [kP2pMagic, appendU16Be])
    rw [headerU32Be, dropped, appendU32Be,
      List.take_of_length_le (by simp), ofBigEndian_bigEndian_of_lt
        (UInt32.toNat_lt _), UInt32.ofNat_toNat]
  unfold validateStreamHeader
  rw [flagBytes, sizeBytes, shape]
  simp only [List.take_succ_cons, List.take_zero, List.getD_cons_succ,
    List.getD_cons_zero, transportable.version, transportable.flags,
    p2pMessageTypeSupported_tag]
  have marked : ([0x5a, 0x50, 0x32, 0x50] : List UInt8) = kP2pMagic := rfl
  rw [if_neg (not_not_intro marked), if_neg (not_not_intro rfl),
    if_neg (by simp), if_neg (not_not_intro rfl), if_neg]
  · rfl
  · have bounded := transportable.size
    omega

/-- The stream reader takes exactly one envelope off the stream. -/
theorem receiveEnvelope_eq_ok :
    receiveEnvelope stream = .ok (envelope, rest) ↔
      Transportable envelope ∧ stream = envelopeBytes envelope ++ rest := by
  constructor
  · intro received
    unfold receiveEnvelope at received
    obtain ⟨header, later, taken, read1⟩ := cursor_bind_eq_ok.mp received
    obtain ⟨_, rfl⟩ := takeBytes_eq_ok.mp taken
    obtain ⟨payloadSize, middle, checked, read2⟩ :=
      cursor_bind_eq_ok.mp read1
    obtain ⟨_, rfl⟩ := cursor_lift_eq_ok.mp checked
    by_cases empty : payloadSize ≠ 0
    · rw [if_pos empty] at read2
      obtain ⟨payload, last, takenPayload, read3⟩ :=
        cursor_bind_eq_ok.mp read2
      obtain ⟨_, rfl⟩ := takeBytes_eq_ok.mp takenPayload
      obtain ⟨parsed, rfl⟩ := cursor_lift_eq_ok.mp read3
      obtain ⟨transportable, whole⟩ := deserializeP2pEnvelope_eq_ok.mp parsed
      exact ⟨transportable, by rw [← whole, List.append_assoc]⟩
    · rw [if_neg empty] at read2
      obtain ⟨parsed, rfl⟩ := cursor_lift_eq_ok.mp read2
      obtain ⟨transportable, whole⟩ := deserializeP2pEnvelope_eq_ok.mp parsed
      exact ⟨transportable, by rw [← whole]⟩
  · rintro ⟨transportable, rfl⟩
    have sized := toNat_payloadSize transportable.size
    have parsed :
        deserializeP2pEnvelope (envelopeBytes envelope) = .ok envelope :=
      deserializeP2pEnvelope_eq_ok.mpr ⟨transportable, rfl⟩
    unfold receiveEnvelope recvExact
    rw [envelopeBytes, List.append_assoc,
      cursor_bind_of_ok (takeBytes_append
        (length_envelopeHeaderBytes envelope _) _ _),
      cursor_bind_of_ok (cursor_lift_eq_ok.mpr
        ⟨validateStreamHeader_envelopeHeaderBytes transportable, rfl⟩)]
    by_cases empty : UInt32.ofNat envelope.payload.length ≠ 0
    · rw [if_pos empty, cursor_bind_of_ok (takeBytes_append sized.symm _ _)]
      exact cursor_lift_eq_ok.mpr ⟨parsed, rfl⟩
    · have nothing : envelope.payload = [] := by
        rw [not_not.mp empty] at sized
        exact List.length_eq_zero_iff.mp sized.symm
      rw [if_neg empty]
      rw [envelopeBytes, nothing, List.append_nil] at parsed
      rw [nothing, List.nil_append]
      exact cursor_lift_eq_ok.mpr ⟨parsed, rfl⟩

/-- Receiving a number of envelopes cuts the stream where each one ends. -/
theorem receiveEnvelopes_eq_ok
    {count : Nat}
    {envelopes : List P2pEnvelope} :
    receiveEnvelopes count stream = .ok (envelopes, rest) ↔
      envelopes.length = count ∧
      (∀ envelope ∈ envelopes, Transportable envelope) ∧
      stream = envelopes.flatMap envelopeBytes ++ rest := by
  induction count generalizing stream envelopes with
  | zero =>
      rw [receiveEnvelopes, cursor_pure_eq_ok, List.length_eq_zero_iff]
      constructor
      · rintro ⟨rfl, rfl⟩
        simp
      · rintro ⟨rfl, _, rfl⟩
        simp
  | succ count inductionHypothesis =>
      rw [receiveEnvelopes, cursor_bind_eq_ok]
      constructor
      · rintro ⟨envelope, middle, received, read⟩
        obtain ⟨later, last, receivedLater, returned⟩ :=
          cursor_bind_eq_ok.mp read
        obtain ⟨rfl, rfl⟩ := cursor_pure_eq_ok.mp returned
        obtain ⟨transportable, rfl⟩ := receiveEnvelope_eq_ok.mp received
        obtain ⟨counted, each, rfl⟩ := inductionHypothesis.mp receivedLater
        exact ⟨by simp [counted], by simpa using ⟨transportable, each⟩,
          by simp⟩
      · rintro ⟨counted, each, rfl⟩
        cases envelopes with
        | nil => simp at counted
        | cons envelope later =>
            obtain ⟨transportable, eachLater⟩ := List.forall_mem_cons.mp each
            refine ⟨envelope, later.flatMap envelopeBytes ++ rest,
              receiveEnvelope_eq_ok.mpr ⟨transportable, by simp⟩, ?_⟩
            rw [cursor_bind_eq_ok]
            refine ⟨later, rest, inductionHypothesis.mpr
              ⟨by simpa using counted, eachLater, rfl⟩, ?_⟩
            exact cursor_pure_eq_ok.mpr ⟨rfl, rfl⟩

end Stream

section Payloads

variable {envelope : P2pEnvelope} {backend : Backend}

/-- The header of an envelope is right exactly when only its payload is open. -/
theorem requireEnvelopeType_eq_ok
    {type : P2pMessageType}
    {message : String} :
    requireEnvelopeType envelope type message = .ok () ↔
      envelope = { type, payload := envelope.payload } := by
  unfold requireEnvelopeType
  simp only [throw, throwThe, MonadExceptOf.throw, except_guard_eq_ok, ne_eq,
    not_not, pure, Except.pure, and_true]
  constructor
  · rintro ⟨version, typed, flags⟩
    cases envelope
    simp_all
  · intro shape
    rw [shape]
    exact ⟨rfl, rfl, rfl⟩

theorem require_eq_ok
    {condition : Prop}
    [Decidable condition]
    {message : String} :
    require condition message = .ok () ↔ condition := by
  unfold require
  by_cases holds : condition
  · simp [holds, pure, Except.pure]
  · simp [holds, throw, throwThe, MonadExceptOf.throw]

/-- An announcement carries the encoding of its share. -/
theorem parseP2pShareAnnounceEnvelope_eq_ok
    {share : Share} :
    parseP2pShareAnnounceEnvelope backend envelope = .ok share ↔
      makeP2pShareAnnounceEnvelope backend share = .ok envelope := by
  unfold parseP2pShareAnnounceEnvelope makeP2pShareAnnounceEnvelope
  rw [except_seq_eq_ok, requireEnvelopeType_eq_ok]
  simp only [throw, throwThe, MonadExceptOf.throw, except_guard_eq_ok,
    except_bind_eq_ok, pure, Except.pure, Except.ok.injEq]
  constructor
  · rintro ⟨shape, _, parsed⟩
    exact ⟨envelope.payload, serializeShare_deserializeShare parsed,
      shape.symm⟩
  · rintro ⟨payload, serialized, rfl⟩
    refine ⟨rfl, ?_, deserializeShare_serializeShare serialized⟩
    have sized := serializeShare_length serialized
    unfold serializedSize at sized
    rintro ⟨first, second⟩
    split_ifs at sized
    · exact first sized
    · exact second sized

theorem parseP2pShareRequestEnvelope_eq_ok
    {requestedId : ShareId} :
    parseP2pShareRequestEnvelope envelope = .ok requestedId ↔
      makeP2pShareRequestEnvelope requestedId = .ok envelope := by
  unfold parseP2pShareRequestEnvelope makeP2pShareRequestEnvelope
  rw [except_seq_eq_ok, requireEnvelopeType_eq_ok]
  simp only [throw, throwThe, MonadExceptOf.throw, except_guard_eq_ok,
    except_bind_eq_ok, pure, Except.pure, Except.ok.injEq, ne_eq, not_not,
    StateT.run, Prod.exists, takeBitVec256_eq_ok]
  constructor
  · rintro ⟨shape, sized, id, rest, split, nonzero, rfl⟩
    refine ⟨nonzero, ?_⟩
    have ended : rest = [] := by
      rw [split, List.length_append, length_bigEndian,
        kP2pShareRequestPayloadSize] at sized
      exact List.length_eq_zero_iff.mp (by omega)
    rw [shape, split, ended, List.append_nil]
    rfl
  · rintro ⟨nonzero, rfl⟩
    refine ⟨rfl, by simp [hashBytes, kP2pShareRequestPayloadSize], ?_⟩
    exact ⟨requestedId, [], by simp [hashBytes], nonzero, rfl⟩

theorem readP2pTipHint_eq_ok
    {bytes rest : List UInt8}
    {hint : P2pTipHint} :
    readP2pTipHint bytes = .ok (hint, rest) ↔
      bytes = hashBytes hint.shareId ++ appendU64Be hint.shareHeight ++
        rest := by
  unfold readP2pTipHint
  simp only [cursor_bind_eq_ok, takeBitVec256_eq_ok, takeUInt64_eq_ok,
    cursor_pure_eq_ok, hashBytes, appendU64Be]
  constructor
  · rintro ⟨id, middle, rfl, height, last, rfl, rfl, rfl⟩
    simp
  · rintro rfl
    exact ⟨hint.shareId, _, by rw [List.append_assoc], hint.shareHeight, rest,
      rfl, rfl, rfl⟩

theorem parseP2pTipAnnounceEnvelope_eq_ok
    {hint : P2pTipHint} :
    parseP2pTipAnnounceEnvelope envelope = .ok hint ↔
      makeP2pTipAnnounceEnvelope hint = .ok envelope := by
  unfold parseP2pTipAnnounceEnvelope makeP2pTipAnnounceEnvelope
  rw [except_seq_eq_ok, requireEnvelopeType_eq_ok]
  simp only [throw, throwThe, MonadExceptOf.throw, except_guard_eq_ok,
    except_bind_eq_ok, pure, Except.pure, Except.ok.injEq, ne_eq, not_not,
    StateT.run, Prod.exists, readP2pTipHint_eq_ok]
  constructor
  · rintro ⟨shape, sized, _, rest, split, nothing, valid, rfl⟩
    refine ⟨(), valid, ?_⟩
    have ended : rest = [] := by
      rw [split, List.length_append, List.length_append, hashBytes,
        appendU64Be, length_bigEndian, length_bigEndian,
        kP2pTipHintPayloadSize] at sized
      exact List.length_eq_zero_iff.mp (by omega)
    rw [shape, split, ended, List.append_nil]
  · rintro ⟨⟨⟩, valid, rfl⟩
    refine ⟨rfl, by simp [hashBytes, appendU64Be, kP2pTipHintPayloadSize], ?_⟩
    exact ⟨hint, [], by rw [List.append_nil], (), valid, rfl⟩

/-- The response that a requested id and an optional share stand for. -/
def responseFor (requestedId : ShareId) (share : Option Share) :
    P2pShareResponse where
  code := if share.isSome then .found else .notFound
  requestedId := requestedId
  share := share

/-- A response is its code and id, followed by the share that was found. -/
theorem readP2pShareResponse_of_make
    {requestedId : ShareId}
    {share : Option Share}
    (made :
      makeP2pShareResponseEnvelope backend requestedId share =
        .ok envelope) :
    ∃ serialized,
      envelope = {
        type := .shareResponse
        payload :=
          (responseFor requestedId share).code.tag ::
            (hashBytes requestedId ++ serialized) } ∧
      ∃ rest,
        readP2pShareResponse backend envelope.payload =
          .ok (responseFor requestedId share, rest) := by
  unfold makeP2pShareResponseEnvelope at made
  obtain ⟨nonzero, made⟩ := except_guard_eq_ok.mp made
  cases share with
  | none =>
      cases made
      refine ⟨[], by simp [responseFor], [], ?_⟩
      unfold readP2pShareResponse
      have idBytes :
          takeBitVec256 readPastEnd (hashBytes requestedId) =
            .ok (requestedId, []) :=
        takeBitVec256_eq_ok.mpr (by rw [List.append_nil]; rfl)
      rw [cursor_bind_of_ok (takeByte_eq_ok.mpr rfl),
        cursor_bind_of_ok idBytes, if_neg nonzero, cursor_get_bind,
        if_pos rfl, if_neg (not_not_intro List.length_nil)]
      rfl
  | some share =>
      obtain ⟨id, keyed, made⟩ := except_bind_eq_ok.mp made
      obtain ⟨matching, made⟩ := except_guard_eq_ok.mp made
      obtain ⟨serialized, encoded, returned⟩ := except_bind_eq_ok.mp made
      cases returned
      have same : id = requestedId := not_not.mp matching
      have sized := serializeShare_length encoded
      unfold serializedSize at sized
      refine ⟨serialized, rfl, serialized, ?_⟩
      unfold readP2pShareResponse
      have idBytes :
          takeBitVec256 readPastEnd (hashBytes requestedId ++ serialized) =
            .ok (requestedId, serialized) :=
        takeBitVec256_eq_ok.mpr rfl
      have known :
          ¬ (serialized.length ≠ kShareV1SerializedSize ∧
            serialized.length ≠ kShareV2SerializedSize) := by
        rintro ⟨first, second⟩
        split_ifs at sized
        · exact first sized
        · exact second sized
      rw [cursor_bind_of_ok (takeByte_eq_ok.mpr rfl),
        cursor_bind_of_ok idBytes, if_neg nonzero, cursor_get_bind,
        if_neg (by decide), if_neg (not_not_intro rfl), if_neg known,
        cursor_bind_of_ok (cursor_lift_eq_ok.mpr
          ⟨deserializeShare_serializeShare encoded, rfl⟩),
        cursor_bind_of_ok (cursor_lift_eq_ok.mpr ⟨keyed, rfl⟩),
        if_neg matching]
      rfl

theorem make_of_readP2pShareResponse
    {payload rest : List UInt8}
    {response : P2pShareResponse}
    (read : readP2pShareResponse backend payload = .ok (response, rest)) :
    response = responseFor response.requestedId response.share ∧
      makeP2pShareResponseEnvelope backend response.requestedId
        response.share = .ok { type := .shareResponse, payload } := by
  unfold readP2pShareResponse at read
  obtain ⟨code, bytes1, taken1, read1⟩ := cursor_bind_eq_ok.mp read
  obtain ⟨requestedId, serialized, taken2, read2⟩ :=
    cursor_bind_eq_ok.mp read1
  obtain rfl := takeByte_eq_ok.mp taken1
  obtain rfl := takeBitVec256_eq_ok.mp taken2
  obtain ⟨nonzero, read3⟩ := cursor_guard_eq_ok.mp read2
  rw [cursor_get_bind] at read3
  unfold makeP2pShareResponseEnvelope
  by_cases missing : code = P2pShareResponseCode.notFound.tag
  · rw [if_pos missing] at read3
    obtain ⟨ended, read4⟩ := cursor_guard_eq_ok.mp read3
    obtain ⟨rfl, _⟩ := cursor_pure_eq_ok.mp read4
    have nothing := List.length_eq_zero_iff.mp (not_not.mp ended)
    refine ⟨rfl, ?_⟩
    rw [if_neg nonzero, missing, nothing, List.append_nil]
    rfl
  · rw [if_neg missing] at read3
    obtain ⟨found, read4⟩ := cursor_guard_eq_ok.mp read3
    obtain ⟨_, read5⟩ := cursor_guard_eq_ok.mp read4
    obtain ⟨share, bytes2, parsed, read6⟩ := cursor_bind_eq_ok.mp read5
    obtain ⟨id, bytes3, keyed, read7⟩ := cursor_bind_eq_ok.mp read6
    obtain ⟨matching, read8⟩ := cursor_guard_eq_ok.mp read7
    obtain ⟨rfl, _⟩ := cursor_pure_eq_ok.mp read8
    obtain ⟨deserialized, _⟩ := cursor_lift_eq_ok.mp parsed
    obtain ⟨identified, _⟩ := cursor_lift_eq_ok.mp keyed
    refine ⟨rfl, ?_⟩
    rw [if_neg nonzero]
    dsimp only
    rw [identified]
    change (if id ≠ requestedId then _ else _) = _
    rw [if_neg matching, serializeShare_deserializeShare deserialized,
      not_not.mp found]
    rfl

theorem parseP2pShareResponseEnvelope_eq_ok
    {response : P2pShareResponse} :
    parseP2pShareResponseEnvelope backend envelope = .ok response ↔
      response = responseFor response.requestedId response.share ∧
        makeP2pShareResponseEnvelope backend response.requestedId
          response.share = .ok envelope := by
  unfold parseP2pShareResponseEnvelope
  rw [except_seq_eq_ok, requireEnvelopeType_eq_ok]
  simp only [throw, throwThe, MonadExceptOf.throw, except_guard_eq_ok,
    cursor_run_eq_ok]
  constructor
  · rintro ⟨shape, _, rest, read⟩
    obtain ⟨complete, made⟩ := make_of_readP2pShareResponse read
    exact ⟨complete, by rw [made, ← shape]⟩
  · rintro ⟨complete, made⟩
    obtain ⟨serialized, shape, rest, read⟩ := readP2pShareResponse_of_make made
    rw [← complete] at read
    refine ⟨by rw [shape], ?_, rest, read⟩
    rw [shape]
    simp [hashBytes, kP2pShareResponseHeaderSize]

theorem checkEnvelope_eq_ok
    {type : P2pMessageType} :
    checkEnvelope envelope type = .ok () ↔
      envelope = { type, payload := envelope.payload } ∧
        envelope.payload.length ≤ kP2pMaxPayloadSize := by
  unfold checkEnvelope
  rw [require_eq_ok]
  constructor
  · rintro ⟨version, typed, flags, bounded⟩
    refine ⟨?_, bounded⟩
    cases envelope
    simp_all
  · rintro ⟨shape, bounded⟩
    rw [shape] at bounded ⊢
    exact ⟨rfl, rfl, rfl, bounded⟩

theorem decodeRequest_eq_ok
    {bytes rest : List UInt8}
    {request : MiningWorkRequest} :
    decodeRequest bytes = .ok (request, rest) ↔
      checkRequest request = .ok () ∧
        bytes = miningWorkRequestBytes request ++ rest := by
  unfold decodeRequest
  simp only [cursor_bind_eq_ok, takeBitVec256_eq_ok, takeUInt64_eq_ok,
    takeUInt32_eq_ok, cursor_pure_eq_ok, cursor_lift_eq_ok,
    miningWorkRequestBytes, hashBytes, appendU64Be, appendU32Be]
  constructor
  · rintro ⟨height, bytes1, rfl, header, bytes2, rfl, offset, bytes3, rfl,
      nothing, bytes4, ⟨checked, rfl⟩, rfl, rfl⟩
    exact ⟨checked, by simp⟩
  · rintro ⟨checked, rfl⟩
    exact ⟨request.key.zanoHeight, _, by simp only [List.append_assoc],
      request.key.miningHeaderHash, _, rfl, request.offset, _, rfl, (), _,
      ⟨checked, rfl⟩, rfl, rfl⟩

theorem length_miningWorkRequestBytes
    (request : MiningWorkRequest) :
    (miningWorkRequestBytes request).length = 44 := by
  simp [miningWorkRequestBytes, appendU64Be, hashBytes, appendU32Be]

theorem makeMiningWorkRequest_eq_ok
    {request : MiningWorkRequest} :
    makeMiningWorkRequest request = .ok envelope ↔
      checkRequest request = .ok () ∧
        envelope = {
          type := .miningWorkRequest
          payload := miningWorkRequestBytes request } := by
  unfold makeMiningWorkRequest
  rw [except_seq_eq_ok]
  simp only [pure, Except.pure, Except.ok.injEq, eq_comm]

theorem parseMiningWorkRequest_eq_ok
    {request : MiningWorkRequest} :
    parseMiningWorkRequest envelope = .ok request ↔
      makeMiningWorkRequest request = .ok envelope := by
  unfold parseMiningWorkRequest
  rw [except_seq_eq_ok, checkEnvelope_eq_ok, except_seq_eq_ok, require_eq_ok,
    cursor_run_eq_ok, makeMiningWorkRequest_eq_ok]
  simp only [decodeRequest_eq_ok]
  have sized := length_miningWorkRequestBytes request
  constructor
  · rintro ⟨⟨shape, _⟩, length, rest, checked, split⟩
    refine ⟨checked, ?_⟩
    have ended : rest = [] := by
      rw [split, List.length_append] at length
      exact List.length_eq_zero_iff.mp (by omega)
    rw [shape, split, ended, List.append_nil]
  · rintro ⟨checked, rfl⟩
    refine ⟨⟨rfl, ?_⟩, sized, [], checked, by rw [List.append_nil]⟩
    dsimp only
    rw [sized]
    decide

theorem makeMiningWorkResponse_eq_ok
    {response : MiningWorkResponse} :
    makeMiningWorkResponse response = .ok envelope ↔
      checkResponse response = .ok () ∧
        envelope = {
          type := .miningWorkResponse
          payload :=
            miningWorkRequestBytes response.request ++
              appendU32Be response.totalSize ++ response.chunk } := by
  unfold makeMiningWorkResponse
  rw [except_seq_eq_ok, except_bind_eq_ok]
  constructor
  · rintro ⟨checked, _, made, returned⟩
    obtain ⟨_, rfl⟩ := makeMiningWorkRequest_eq_ok.mp made
    cases returned
    exact ⟨checked, rfl⟩
  · rintro ⟨checked, rfl⟩
    refine ⟨checked, _, makeMiningWorkRequest_eq_ok.mpr ⟨?_, rfl⟩, rfl⟩
    unfold checkResponse at checked
    exact (except_seq_eq_ok.mp checked).1

/-- A response that passes its check holds at most one chunk. -/
theorem length_chunk_of_checkResponse
    {response : MiningWorkResponse}
    (checked : checkResponse response = .ok ()) :
    response.chunk.length ≤ kMiningWorkChunkSize := by
  unfold checkResponse at checked
  obtain ⟨_, checked⟩ := except_seq_eq_ok.mp checked
  by_cases missing : response.totalSize = 0
  · rw [if_pos missing, require_eq_ok] at checked
    simp [checked]
  · rw [if_neg missing, except_seq_eq_ok, require_eq_ok,
      require_eq_ok] at checked
    rw [checked.2]
    exact min_le_left _ _

theorem readMiningWorkResponse_eq_ok
    {bytes rest : List UInt8}
    {response : MiningWorkResponse} :
    readMiningWorkResponse bytes = .ok (response, rest) ↔
      checkRequest response.request = .ok () ∧
      rest = response.chunk ∧
      bytes = miningWorkRequestBytes response.request ++
        appendU32Be response.totalSize ++ response.chunk := by
  unfold readMiningWorkResponse
  simp only [cursor_bind_eq_ok, decodeRequest_eq_ok, takeUInt32_eq_ok,
    appendU32Be]
  constructor
  · rintro ⟨request, bytes1, ⟨checked, rfl⟩, totalSize, bytes2, rfl, chunk,
      bytes3, ⟨⟩, ⟨⟩⟩
    exact ⟨checked, rfl, by simp⟩
  · rintro ⟨checked, rfl, rfl⟩
    exact ⟨response.request, _, ⟨checked, by simp only [List.append_assoc]⟩,
      response.totalSize, _, rfl, _, _, rfl, rfl⟩

theorem parseMiningWorkResponse_eq_ok
    {response : MiningWorkResponse} :
    parseMiningWorkResponse envelope = .ok response ↔
      makeMiningWorkResponse response = .ok envelope := by
  unfold parseMiningWorkResponse
  rw [except_seq_eq_ok, checkEnvelope_eq_ok, except_seq_eq_ok, require_eq_ok,
    makeMiningWorkResponse_eq_ok]
  simp only [except_bind_eq_ok, StateT.run, Prod.exists,
    readMiningWorkResponse_eq_ok, pure, Except.pure, Except.ok.injEq]
  have sized := length_miningWorkRequestBytes response.request
  constructor
  · rintro ⟨⟨shape, _⟩, _, _, rest, ⟨_, _, split⟩, nothing, checked, rfl⟩
    exact ⟨checked, by rw [shape, split]⟩
  · rintro ⟨checked, rfl⟩
    have short := length_chunk_of_checkResponse checked
    have payloadLength :
        (miningWorkRequestBytes response.request ++
          appendU32Be response.totalSize ++ response.chunk).length =
            48 + response.chunk.length := by
      simp only [List.length_append, sized, appendU32Be, length_bigEndian]
    have requested : checkRequest response.request = .ok () := by
      unfold checkResponse at checked
      exact (except_seq_eq_ok.mp checked).1
    have limit : 48 + kMiningWorkChunkSize ≤ kP2pMaxPayloadSize := by decide
    refine ⟨⟨rfl, ?_⟩, ?_, response, response.chunk,
      ⟨requested, rfl, rfl⟩, (), checked, rfl⟩
    · dsimp only
      omega
    · dsimp only
      omega

end Payloads

section Handshakes

variable {envelope : P2pEnvelope} {backend : Backend}
  {handshake : P2pHandshake} {bytes rest : List UInt8}

theorem isZeroSidechainId_iff
    {id : SidechainId} :
    isZeroSidechainId id = true ↔ id = 0 := by
  simp [isZeroSidechainId]

theorem length_handshakeBytes
    (handshake : P2pHandshake) :
    (handshakeBytes handshake).length = kP2pHandshakePayloadSize := by
  simp [handshakeBytes, hashBytes, appendU64Be, appendU16Be,
    kP2pHandshakePayloadSize]

theorem makeP2pHandshakeEnvelope_eq_ok :
    makeP2pHandshakeEnvelope backend handshake = .ok envelope ↔
      requireValidHandshake handshake = .ok () ∧
      ∃ sidechainId,
        resolvedP2pSidechainId backend handshake = .ok sidechainId ∧
        envelope = {
          type := .handshake
          payload := handshakeBytes { handshake with sidechainId } } := by
  unfold makeP2pHandshakeEnvelope serializeP2pHandshakePayload
  rw [except_bind_eq_ok]
  constructor
  · rintro ⟨payload, serialized, ⟨⟩⟩
    obtain ⟨valid, serialized⟩ := except_seq_eq_ok.mp serialized
    obtain ⟨sidechainId, resolved, serialized⟩ :=
      except_bind_eq_ok.mp serialized
    obtain ⟨_, ⟨⟩⟩ := except_guard_eq_ok.mp serialized
    exact ⟨valid, sidechainId, resolved, rfl⟩
  · rintro ⟨valid, sidechainId, resolved, rfl⟩
    refine ⟨_, except_seq_eq_ok.mpr ⟨valid, ?_⟩, rfl⟩
    refine except_bind_eq_ok.mpr ⟨sidechainId, resolved, ?_⟩
    exact except_guard_eq_ok.mpr
      ⟨not_not_intro (length_handshakeBytes _), rfl⟩

/-- The fields of a handshake are read where its bytes put them. -/
theorem readP2pHandshake_eq_ok :
    readP2pHandshake bytes = .ok (handshake, rest) ↔
      handshake.sidechainId ≠ 0 ∧
        bytes = handshakeBytes handshake ++ rest := by
  constructor
  · intro read
    unfold readP2pHandshake at read
    obtain ⟨networkValue, bytes1, taken1, read1⟩ := cursor_bind_eq_ok.mp read
    cases known : P2pNetwork.ofTag? networkValue with
    | none =>
        rw [known] at read1
        exact absurd read1 cursor_throw_ne_ok
    | some network =>
        rw [known] at read1
        obtain ⟨sidechainId, bytes2, taken2, read2⟩ :=
          cursor_bind_eq_ok.mp read1
        obtain ⟨nonzero, read3⟩ := cursor_guard_eq_ok.mp read2
        simp only [cursor_bind_eq_ok, takeBitVec256_eq_ok, takeUInt64_eq_ok,
          takeUInt16_eq_ok, cursor_pure_eq_ok] at read3
        obtain ⟨nodeId, bytes3, rfl, capabilities, bytes4, rfl, listenPort,
          bytes5, rfl, bestShareId, bytes6, rfl, bestShareHeight, bytes7, rfl,
          rfl, rfl⟩ := read3
        obtain rfl := takeByte_eq_ok.mp taken1
        obtain rfl := takeBitVec256_eq_ok.mp taken2
        obtain rfl := P2pNetwork.ofTag?_eq_some.mp known
        refine ⟨fun zero => nonzero (isZeroSidechainId_iff.mpr zero), ?_⟩
        simp [handshakeBytes, hashBytes, appendU64Be, appendU16Be]
  · rintro ⟨nonzero, rfl⟩
    have shape :
        handshakeBytes handshake ++ rest =
          handshake.network.tag ::
            (bigEndian 32 handshake.sidechainId.toNat ++
              (bigEndian 32 handshake.nodeId.toNat ++
                (bigEndian 8 handshake.capabilities.toNat ++
                  (bigEndian 2 handshake.listenPort.toNat ++
                    (bigEndian 32 handshake.bestShareId.toNat ++
                      (bigEndian 8 handshake.bestShareHeight.toNat ++
                        rest)))))) := by
      simp [handshakeBytes, hashBytes, appendU64Be, appendU16Be]
    unfold readP2pHandshake
    rw [shape, cursor_bind_of_ok (takeByte_eq_ok.mpr rfl),
      P2pNetwork.ofTag?_eq_some.mpr rfl]
    dsimp only
    rw [cursor_bind_of_ok (takeBitVec256_eq_ok.mpr rfl),
      if_neg (fun zero => nonzero (isZeroSidechainId_iff.mp zero)),
      cursor_bind_of_ok (takeBitVec256_eq_ok.mpr rfl),
      cursor_bind_of_ok (takeUInt64_eq_ok.mpr rfl),
      cursor_bind_of_ok (takeUInt16_eq_ok.mpr rfl),
      cursor_bind_of_ok (takeBitVec256_eq_ok.mpr rfl),
      cursor_bind_of_ok (takeUInt64_eq_ok.mpr rfl)]
    rfl

/-- The parser accepts exactly the payloads of resolved, valid handshakes. -/
theorem parseP2pHandshakeEnvelope_eq_ok :
    parseP2pHandshakeEnvelope envelope = .ok handshake ↔
      handshake.sidechainId ≠ 0 ∧
      requireValidHandshake handshake = .ok () ∧
      envelope = {
        type := .handshake
        payload := handshakeBytes handshake } := by
  unfold parseP2pHandshakeEnvelope deserializeP2pHandshakePayload
  rw [except_seq_eq_ok, requireEnvelopeType_eq_ok]
  simp only [throw, throwThe, MonadExceptOf.throw, except_guard_eq_ok,
    except_bind_eq_ok, StateT.run, Prod.exists, readP2pHandshake_eq_ok, pure,
    Except.pure, Except.ok.injEq, ne_eq, not_not]
  have sized := length_handshakeBytes handshake
  constructor
  · rintro ⟨shape, length, _, rest, ⟨nonzero, split⟩, nothing, valid, rfl⟩
    have ended : rest = [] := by
      rw [split, List.length_append] at length
      exact List.length_eq_zero_iff.mp (by omega)
    exact ⟨nonzero, valid, by rw [shape, split, ended, List.append_nil]⟩
  · rintro ⟨nonzero, valid, rfl⟩
    exact ⟨rfl, sized, handshake, [], ⟨nonzero, by rw [List.append_nil]⟩, (),
      valid, rfl⟩

/-- A handshake that names its sidechain stands for that one. -/
theorem resolvedP2pSidechainId_of_ne
    (nonzero : handshake.sidechainId ≠ 0) :
    resolvedP2pSidechainId backend handshake = .ok handshake.sidechainId := by
  have named : isZeroSidechainId handshake.sidechainId = false := by
    rw [← Bool.not_eq_true, isZeroSidechainId_iff]
    exact nonzero
  unfold resolvedP2pSidechainId
  rw [named]
  rfl

/-- The zero sidechain id is refused on the wire. -/
theorem parseP2pHandshakeEnvelope_zero
    (unresolved : handshake.sidechainId = 0) :
    parseP2pHandshakeEnvelope
        { type := .handshake, payload := handshakeBytes handshake } =
      .error (.runtimeError "P2P sidechain id must be non-zero") := by
  have shape :
      handshakeBytes handshake =
        handshake.network.tag ::
          (bigEndian 32 handshake.sidechainId.toNat ++
            (hashBytes handshake.nodeId ++
              appendU64Be handshake.capabilities ++
              appendU16Be handshake.listenPort ++
              hashBytes handshake.bestShareId ++
              appendU64Be handshake.bestShareHeight)) := by
    simp [handshakeBytes, hashBytes]
  have read :
      readP2pHandshake (handshakeBytes handshake) =
        .error (.runtimeError "P2P sidechain id must be non-zero") := by
    unfold readP2pHandshake
    rw [shape, cursor_bind_of_ok (takeByte_eq_ok.mpr rfl),
      P2pNetwork.ofTag?_eq_some.mpr rfl]
    dsimp only
    rw [cursor_bind_of_ok (takeBitVec256_eq_ok.mpr rfl),
      if_pos (isZeroSidechainId_iff.mpr unresolved)]
    rfl
  unfold parseP2pHandshakeEnvelope deserializeP2pHandshakePayload
  rw [requireEnvelopeType_eq_ok.mpr rfl]
  dsimp only [bind, Except.bind]
  rw [if_neg (not_not_intro (length_handshakeBytes handshake)), StateT.run,
    read]

end Handshakes

/--
Envelopes, byte streams of envelopes and message payloads are read back exactly
as they were written, and only what can be written is read.
-/
theorem p2pWireFormat_canonical
    (backend : Backend) :
    (∀ envelope bytes,
      serializeP2pEnvelope envelope = .ok bytes →
        deserializeP2pEnvelope bytes = .ok envelope) ∧
    (∀ bytes envelope,
      deserializeP2pEnvelope bytes = .ok envelope →
        serializeP2pEnvelope envelope = .ok bytes) ∧
    (∀ envelopes frames rest,
      List.Forall₂
          (fun envelope frame => serializeP2pEnvelope envelope = .ok frame)
          envelopes frames →
        receiveEnvelopes envelopes.length (frames.flatten ++ rest) =
          .ok (envelopes, rest)) ∧
    (∀ stream envelope rest,
      receiveEnvelope stream = .ok (envelope, rest) ↔
        ∃ frame, stream = frame ++ rest ∧
          deserializeP2pEnvelope frame = .ok envelope) ∧
    (∀ handshake sidechainId envelope,
      resolvedP2pSidechainId backend handshake = .ok sidechainId →
      makeP2pHandshakeEnvelope backend handshake = .ok envelope →
        parseP2pHandshakeEnvelope envelope =
          if sidechainId = 0 then
            .error (.runtimeError "P2P sidechain id must be non-zero")
          else .ok { handshake with sidechainId }) ∧
    (∀ envelope handshake,
      parseP2pHandshakeEnvelope envelope = .ok handshake →
        resolvedP2pSidechainId backend handshake =
            .ok handshake.sidechainId ∧
          makeP2pHandshakeEnvelope backend handshake = .ok envelope) ∧
    (∀ share envelope,
      makeP2pShareAnnounceEnvelope backend share = .ok envelope ↔
        parseP2pShareAnnounceEnvelope backend envelope = .ok share) ∧
    (∀ requestedId envelope,
      makeP2pShareRequestEnvelope requestedId = .ok envelope ↔
        parseP2pShareRequestEnvelope envelope = .ok requestedId) ∧
    (∀ requestedId share envelope,
      makeP2pShareResponseEnvelope backend requestedId share =
          .ok envelope →
        parseP2pShareResponseEnvelope backend envelope =
          .ok (responseFor requestedId share)) ∧
    (∀ envelope response,
      parseP2pShareResponseEnvelope backend envelope = .ok response →
        response = responseFor response.requestedId response.share ∧
          makeP2pShareResponseEnvelope backend response.requestedId
            response.share = .ok envelope) ∧
    (∀ hint envelope,
      makeP2pTipAnnounceEnvelope hint = .ok envelope ↔
        parseP2pTipAnnounceEnvelope envelope = .ok hint) ∧
    (∀ request envelope,
      makeMiningWorkRequest request = .ok envelope ↔
        parseMiningWorkRequest envelope = .ok request) ∧
    (∀ response envelope,
      makeMiningWorkResponse response = .ok envelope ↔
        parseMiningWorkResponse envelope = .ok response) := by
  refine ⟨?_, ?_, ?_, ?_, ?_, ?_, ?_, ?_, ?_, ?_, ?_, ?_, ?_⟩
  · intro envelope bytes serialized
    exact deserializeP2pEnvelope_eq_ok.mpr
      (serializeP2pEnvelope_eq_ok.mp serialized)
  · intro bytes envelope parsed
    exact serializeP2pEnvelope_eq_ok.mpr
      (deserializeP2pEnvelope_eq_ok.mp parsed)
  · intro envelopes frames rest serialized
    have encoded :
        (∀ envelope ∈ envelopes, Transportable envelope) ∧
          frames.flatten = envelopes.flatMap envelopeBytes := by
      induction serialized with
      | nil => simp
      | cons first _ inductionHypothesis =>
          obtain ⟨transportable, rfl⟩ := serializeP2pEnvelope_eq_ok.mp first
          obtain ⟨each, same⟩ := inductionHypothesis
          exact ⟨by simpa using ⟨transportable, each⟩, by simp [same]⟩
    exact receiveEnvelopes_eq_ok.mpr ⟨rfl, encoded.1, by rw [encoded.2]⟩
  · intro stream envelope rest
    rw [receiveEnvelope_eq_ok]
    constructor
    · rintro ⟨transportable, rfl⟩
      exact ⟨_, rfl, deserializeP2pEnvelope_eq_ok.mpr ⟨transportable, rfl⟩⟩
    · rintro ⟨frame, rfl, parsed⟩
      obtain ⟨transportable, rfl⟩ := deserializeP2pEnvelope_eq_ok.mp parsed
      exact ⟨transportable, rfl⟩
  · intro handshake sidechainId envelope resolved made
    obtain ⟨valid, other, resolvedAgain, rfl⟩ :=
      makeP2pHandshakeEnvelope_eq_ok.mp made
    obtain rfl : sidechainId = other := by
      rw [resolved] at resolvedAgain
      exact Except.ok.inj resolvedAgain
    by_cases zero : sidechainId = 0
    · rw [if_pos zero]
      exact parseP2pHandshakeEnvelope_zero zero
    · rw [if_neg zero]
      exact parseP2pHandshakeEnvelope_eq_ok.mpr ⟨zero, valid, rfl⟩
  · intro envelope handshake parsed
    obtain ⟨nonzero, valid, rfl⟩ := parseP2pHandshakeEnvelope_eq_ok.mp parsed
    have resolved :=
      @resolvedP2pSidechainId_of_ne backend handshake nonzero
    exact ⟨resolved, makeP2pHandshakeEnvelope_eq_ok.mpr
      ⟨valid, handshake.sidechainId, resolved, rfl⟩⟩
  · exact fun _ _ => parseP2pShareAnnounceEnvelope_eq_ok.symm
  · exact fun _ _ => parseP2pShareRequestEnvelope_eq_ok.symm
  · intro requestedId share envelope made
    exact parseP2pShareResponseEnvelope_eq_ok.mpr ⟨rfl, made⟩
  · exact fun _ _ => parseP2pShareResponseEnvelope_eq_ok.mp
  · exact fun _ _ => parseP2pTipAnnounceEnvelope_eq_ok.symm
  · exact fun _ _ => parseMiningWorkRequest_eq_ok.symm
  · exact fun _ _ => parseMiningWorkResponse_eq_ok.symm

/-- A node that names no sidechain and has no shares. -/
def sampleHandshake : P2pHandshake where
  nodeId := 7
  listenPort := 18080

/-- The sample node is read back under the canonical sidechain. -/
theorem sampleHandshake_resolves :
    ∃ envelope,
      makeP2pHandshakeEnvelope countingBackend sampleHandshake =
          .ok envelope ∧
        parseP2pHandshakeEnvelope envelope =
          .ok { sampleHandshake with sidechainId := 139 } := by
  have resolved :
      resolvedP2pSidechainId countingBackend sampleHandshake = .ok 139 := by
    decide +kernel
  have made := makeP2pHandshakeEnvelope_eq_ok.mpr
    ⟨by decide +kernel, 139, resolved, rfl⟩
  have law := p2pWireFormat_canonical countingBackend
  exact ⟨_, made, law.2.2.2.2.1 _ _ _ resolved made⟩

end ZanoP2pool
