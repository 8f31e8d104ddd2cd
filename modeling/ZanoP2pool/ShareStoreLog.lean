import ZanoP2pool.ShareStore

namespace ZanoP2pool

open Foundation

/-!
# Logs that encode a list of shares

A complete log is a header followed by the records of some shares.  Appending
adds a record at the end, rewriting installs the records of its argument, and
loading replays exactly the encoded shares, in order.
-/

namespace ShareStore

variable {backend : Backend}

/-- The bytes are the records of the shares, in order. -/
inductive Encodes (backend : Backend) : List Share → List UInt8 → Prop where
  | nil :
      Encodes backend [] []
  | cons
      {share : Share}
      {id : ShareId}
      {shares : List Share}
      {payload bytes : List UInt8} :
      serializeShare backend share = .ok payload →
      shareId backend share = .ok id →
      Encodes backend shares bytes →
      Encodes backend (share :: shares) (recordBytes payload id ++ bytes)

/-- A share with an identity has an encoding. -/
theorem serializes_of_shareId
    {share : Share}
    {id : ShareId}
    (keyed : shareId backend share = .ok id) :
    ∃ payload, serializeShare backend share = .ok payload := by
  unfold shareId at keyed
  obtain ⟨payload, serialized, _⟩ := except_bind_eq_ok.mp keyed
  exact ⟨payload, serialized⟩

/-- Payloads have one of the two sizes a record may have. -/
theorem payload_size
    {share : Share}
    {payload : List UInt8}
    (serialized : serializeShare backend share = .ok payload) :
    payload.length = kShareV1SerializedSize ∨
      payload.length = kShareV2SerializedSize := by
  rw [serializeShare_length serialized, serializedSize]
  split
  · exact .inl rfl
  · exact .inr rfl

/-- The size check of a payload never fails. -/
theorem recordPayload_eq
    {share : Share}
    {payload : List UInt8}
    (serialized : serializeShare backend share = .ok payload) :
    recordPayload backend share = .ok payload := by
  have sized := payload_size serialized
  simp only [recordPayload, serialized, bind, Except.bind]
  rw [if_neg (by tauto)]

/-- A leading record is read back completely. -/
theorem nextRecord_recordBytes
    {share : Share}
    {payload : List UInt8}
    (serialized : serializeShare backend share = .ok payload)
    (id : ShareId)
    (rest : List UInt8) :
    nextRecord (recordBytes payload id ++ rest) =
      .ok (.complete payload id rest) := by
  have sized := payload_size serialized
  have fits : payload.length < 256 ^ 4 := by
    rcases sized with size | size <;> rw [size] <;> decide
  have idFits : id.toNat < 256 ^ 32 := by
    have bound := id.isLt
    norm_num at bound ⊢
    exact bound
  have shape :
      recordBytes payload id ++ rest =
        bigEndian 4 payload.length ++ (payload ++ (hashBytes id ++ rest)) := by
    simp [recordBytes]
  have lengthBytes :
      (bigEndian 4 payload.length ++
          (payload ++ (hashBytes id ++ rest))).take 4 =
        bigEndian 4 payload.length :=
    List.take_left' (length_bigEndian 4 _)
  have afterLength :
      (bigEndian 4 payload.length ++
          (payload ++ (hashBytes id ++ rest))).drop 4 =
        payload ++ (hashBytes id ++ rest) :=
    List.drop_left' (length_bigEndian 4 _)
  have hashLength : (hashBytes id).length = 32 := length_bigEndian 32 _
  have nonempty :
      bigEndian 4 payload.length ++ (payload ++ (hashBytes id ++ rest)) ≠
        [] := by
    simp [bigEndian]
  have storedId :
      BitVec.ofNat 256 (ofBigEndian (hashBytes id)) = id := by
    rw [hashBytes, ofBigEndian_bigEndian_of_lt idFits]
    simp
  rw [shape]
  unfold nextRecord
  simp only [lengthBytes, afterLength, ofBigEndian_bigEndian_of_lt fits,
    List.drop_left, List.take_left, List.take_left' hashLength,
    List.drop_left' hashLength, storedId]
  rw [if_neg nonempty, if_neg (by simp), if_neg (by tauto),
    if_neg (by simp), if_neg (by simp [hashLength])]

/-- The record of a share decodes to that share. -/
theorem decodeRecord_eq
    {share : Share}
    {id : ShareId}
    {payload : List UInt8}
    (serialized : serializeShare backend share = .ok payload)
    (keyed : shareId backend share = .ok id) :
    decodeRecord backend payload id = .ok share := by
  simp [decodeRecord, deserializeShare_serializeShare serialized, keyed,
    bind, Except.bind]

/-- Replay shares one by one, stopping at the first exception. -/
def replayShares (backend : Backend) : List Share → ChainM Unit
  | [] => return ()
  | share :: rest => do
      replayShare backend share
      replayShares backend rest

/-- The progress of a load that replayed a whole log. -/
def completeProgress
    (shares : List Share)
    (bytes : List UInt8) :
    LoadProgress :=
  { recordsLoaded := shares.length, goodBytes := bytes.length }

/-- Replaying a log replays the shares it encodes. -/
theorem replayRecords_eq
    {shares : List Share}
    {bytes : List UInt8}
    (encodes : Encodes backend shares bytes)
    (repair : Bool)
    {budget : Nat}
    (enough : bytes.length < budget)
    (chain : ShareChain) :
    replayRecords backend repair budget bytes chain =
      (do replayShares backend shares
          return completeProgress shares bytes : ChainM LoadProgress)
        chain := by
  induction encodes generalizing budget chain with
  | nil =>
      cases budget with
      | zero => omega
      | succ budget => rfl
  | @cons share id shares payload bytes serialized keyed _
      inductionHypothesis =>
      cases budget with
      | zero => omega
      | succ budget =>
          have shorter : bytes.length < budget := by
            simp only [List.length_append, recordBytes, length_bigEndian]
              at enough
            omega
          have recordLength :
              (recordBytes payload id ++ bytes).length =
                bytes.length + (4 + payload.length + 32) := by
            simp only [recordBytes, List.length_append, length_bigEndian,
              hashBytes]
            omega
          unfold replayRecords replayShares
          rw [bind_of_ok (orThrow_eq_ok.mpr
            ⟨nextRecord_recordBytes serialized id bytes, rfl⟩)]
          simp only
          rw [bind_of_ok (orThrow_eq_ok.mpr
            ⟨decodeRecord_eq serialized keyed, rfl⟩)]
          simp only [bind_apply]
          cases replayed : replayShare backend share chain with
          | error thrown middle => rfl
          | ok value middle =>
              simp only [inductionHypothesis shorter, bind_apply]
              cases replayShares backend shares middle with
              | error thrown final => rfl
              | ok _ final =>
                  simp [completeProgress, recordLength]

/-- The header of a store is accepted by that store. -/
theorem verifyHeader_headerBytes
    (sidechainId : SidechainId)
    (rest : List UInt8) :
    verifyHeader sidechainId (headerBytes sidechainId ++ rest) =
      .ok rest := by
  have fits : sidechainId.toNat < 256 ^ 32 := by
    have bound := sidechainId.isLt
    norm_num at bound ⊢
    exact bound
  have magicLength : kShareStoreMagic.length = 8 := rfl
  have hashLength : (hashBytes sidechainId).length = 32 :=
    length_bigEndian 32 _
  have stored :
      BitVec.ofNat 256 (ofBigEndian (hashBytes sidechainId)) =
        sidechainId := by
    rw [hashBytes, ofBigEndian_bigEndian_of_lt fits]
    simp
  unfold verifyHeader headerBytes
  simp only [List.append_assoc, List.take_left, List.drop_left,
    List.take_left' hashLength, List.drop_left' hashLength, stored]
  rw [if_neg (by simp), if_neg (by simp [hashLength]), if_neg (by simp)]

/-- A file that starts with a header is long enough for one. -/
theorem headerBytes_large
    (sidechainId : SidechainId)
    (rest : List UInt8) :
    ¬ (headerBytes sidechainId ++ rest).length < kShareStoreHeaderSize := by
  simp [headerBytes, hashBytes, kShareStoreMagic, kShareStoreHeaderSize]

/-- A store without a file, or with a file that starts with its header. -/
def Usable (store : ShareStore) : Prop :=
  ∀ bytes, store.file = some bytes →
    ∃ rest, bytes = headerBytes store.expectedSidechainId ++ rest

/-- The file of a store holds exactly the records of some shares. -/
def Holds
    (backend : Backend)
    (store : ShareStore)
    (shares : List Share) :
    Prop :=
  ∃ bytes,
    store.file = some (headerBytes store.expectedSidechainId ++ bytes) ∧
    Encodes backend shares bytes

/-- The result of a load that ended with the given chain. -/
def completeResult
    (shares : List Share)
    (chain : ShareChain) :
    ShareStoreLoadResult :=
  { recordsLoaded := shares.length
    connectedShares := chain.connected.size
    orphanShares := chain.orphans.size
    bestTipId := chain.bestTip.map ConnectedShare.id }

/-- Loading a complete log replays its shares and leaves the store alone. -/
theorem loadInto_eq
    {store : ShareStore}
    {shares : List Share}
    (holds : Holds backend store shares)
    (repair : Bool)
    (chain : ShareChain) :
    loadInto backend store repair chain =
      match replayShares backend shares chain with
      | .ok () final => .ok (completeResult shares final, store) final
      | .error thrown final => .error thrown final := by
  obtain ⟨bytes, file, encodes⟩ := holds
  unfold loadInto
  rw [file]
  simp only [if_neg (headerBytes_large store.expectedSidechainId bytes)]
  rw [bind_of_ok (orThrow_eq_ok.mpr
    ⟨verifyHeader_headerBytes store.expectedSidechainId bytes, rfl⟩)]
  simp only [bind_apply,
    replayRecords_eq encodes repair (Nat.lt_succ_self bytes.length)]
  cases replayShares backend shares chain with
  | error thrown final => rfl
  | ok value final => rfl

/-- Loading a store without a file changes nothing. -/
theorem loadInto_absent
    {store : ShareStore}
    (absent : store.file = none)
    (repair : Bool)
    (chain : ShareChain) :
    loadInto backend store repair chain = .ok ({}, store) chain := by
  unfold loadInto
  rw [absent]
  rfl

/-- Records can be added at the end of a log. -/
theorem Encodes.append
    {shares later : List Share}
    {bytes laterBytes : List UInt8}
    (encodes : Encodes backend shares bytes)
    (laterEncodes : Encodes backend later laterBytes) :
    Encodes backend (shares ++ later) (bytes ++ laterBytes) := by
  induction encodes with
  | nil => exact laterEncodes
  | cons serialized keyed _ inductionHypothesis =>
      rw [List.cons_append, List.append_assoc]
      exact .cons serialized keyed inductionHypothesis

/-- The shares of a log, none when there is no file yet. -/
def HoldsOrAbsent
    (backend : Backend)
    (store : ShareStore)
    (shares : List Share) :
    Prop :=
  (store.file = none ∧ shares = []) ∨ Holds backend store shares

/-- Appending a share adds its record and keeps the identity of the store. -/
theorem append_holds
    {store : ShareStore}
    {shares : List Share}
    (holds : HoldsOrAbsent backend store shares)
    {share : Share}
    {id : ShareId}
    (keyed : shareId backend share = .ok id) :
    ∃ next,
      append backend share store = .ok () next ∧
      next.expectedSidechainId = store.expectedSidechainId ∧
      Holds backend next (shares ++ [share]) := by
  obtain ⟨payload, serialized⟩ := serializes_of_shareId keyed
  have single : Encodes backend [share] (recordBytes payload id) := by
    simpa using Encodes.cons serialized keyed .nil
  unfold append
  rw [bind_of_ok (orThrow_eq_ok.mpr ⟨recordPayload_eq serialized, rfl⟩),
    bind_of_ok (orThrow_eq_ok.mpr ⟨keyed, rfl⟩)]
  rcases holds with ⟨absent, rfl⟩ | ⟨bytes, file, encodes⟩
  · have created :
        ensureHeader store =
          .ok (headerBytes store.expectedSidechainId)
            { store with
              file := some (headerBytes store.expectedSidechainId) } := by
      unfold ensureHeader
      rw [get_bind_apply, absent]
      rfl
    rw [bind_of_ok created]
    exact ⟨_, rfl, rfl, recordBytes payload id, rfl, single⟩
  · have checked :
        ensureHeader store =
          .ok (headerBytes store.expectedSidechainId ++ bytes) store := by
      unfold ensureHeader
      rw [get_bind_apply, file]
      simp only [if_neg (headerBytes_large store.expectedSidechainId bytes)]
      rw [bind_of_ok (orThrow_eq_ok.mpr
        ⟨verifyHeader_headerBytes store.expectedSidechainId bytes, rfl⟩)]
      rfl
    rw [bind_of_ok checked]
    refine ⟨_, rfl, rfl, bytes ++ recordBytes payload id, ?_,
      encodes.append single⟩
    simp

/-- Append several shares in order. -/
def appendAll (backend : Backend) : List Share → StoreM Unit
  | [] => return ()
  | share :: rest => do
      append backend share
      appendAll backend rest

/-- Appending shares that have identities extends the log by them. -/
theorem appendAll_holds
    {store : ShareStore}
    {shares later : List Share}
    (holds : HoldsOrAbsent backend store shares)
    (keyed : ∀ share ∈ later, ∃ id, shareId backend share = .ok id) :
    ∃ next,
      appendAll backend later store = .ok () next ∧
      next.expectedSidechainId = store.expectedSidechainId ∧
      HoldsOrAbsent backend next (shares ++ later) := by
  induction later generalizing store shares with
  | nil =>
      exact ⟨store, rfl, rfl, by simpa using holds⟩
  | cons share rest inductionHypothesis =>
      obtain ⟨id, shareKeyed⟩ := keyed share (by simp)
      obtain ⟨middle, appended, sameId, middleHolds⟩ :=
        append_holds holds shareKeyed
      obtain ⟨next, finished, laterId, nextHolds⟩ :=
        inductionHypothesis (.inr middleHolds)
          (fun other member => keyed other (by simp [member]))
      refine ⟨next, ?_, laterId.trans sameId, by simpa using nextHolds⟩
      unfold appendAll
      rw [bind_of_ok appended]
      exact finished

/-- Distinct identities are written without complaint. -/
theorem rewriteRecords_encodes
    {shares : List Share}
    {ids : List ShareId}
    (seen : List ShareId)
    (keyed :
      List.Forall₂ (fun share id => shareId backend share = .ok id)
        shares ids)
    (distinct : ids.Nodup)
    (unseen : ∀ id ∈ ids, id ∉ seen) :
    ∃ bytes,
      rewriteRecords backend seen shares = .ok bytes ∧
      Encodes backend shares bytes := by
  induction keyed generalizing seen with
  | nil => exact ⟨[], rfl, .nil⟩
  | @cons share id shares ids shareKeyed _ inductionHypothesis =>
      obtain ⟨payload, serialized⟩ := serializes_of_shareId shareKeyed
      obtain ⟨fresh, laterDistinct⟩ := List.nodup_cons.mp distinct
      obtain ⟨bytes, written, encodes⟩ :=
        inductionHypothesis (id :: seen) laterDistinct (by
          intro other member
          rw [List.mem_cons, not_or]
          refine ⟨?_, unseen other (by simp [member])⟩
          rintro rfl
          exact fresh member)
      refine ⟨recordBytes payload id ++ bytes, ?_,
        .cons serialized shareKeyed encodes⟩
      simp only [rewriteRecords, recordPayload_eq serialized, shareKeyed,
        written, bind, Except.bind, if_neg (unseen id (by simp)), pure,
        Except.pure]

/-- Rewriting a usable store with distinct shares installs their records. -/
theorem rewrite_encodes
    {store : ShareStore}
    (usable : Usable store)
    {shares : List Share}
    {ids : List ShareId}
    (keyed :
      List.Forall₂ (fun share id => shareId backend share = .ok id)
        shares ids)
    (distinct : ids.Nodup) :
    ∃ bytes,
      Encodes backend shares bytes ∧
      rewrite backend shares store =
        .ok () { store with
          file := some (headerBytes store.expectedSidechainId ++ bytes) } := by
  obtain ⟨bytes, written, encodes⟩ :=
    rewriteRecords_encodes [] keyed distinct (by simp)
  refine ⟨bytes, encodes, ?_⟩
  unfold rewrite
  rw [get_bind_apply]
  cases file : store.file with
  | none =>
      simp only
      rw [bind_of_ok (orThrow_eq_ok.mpr ⟨written, rfl⟩)]
      rfl
  | some existing =>
      obtain ⟨rest, rfl⟩ := usable existing file
      simp only [if_neg (headerBytes_large store.expectedSidechainId rest),
        verifyHeader_headerBytes]
      simp only [bind_apply, orThrow_ok]
      rw [written]
      rfl

/-- A store that holds a log can be rewritten. -/
theorem Holds.usable
    {store : ShareStore}
    {shares : List Share}
    (holds : Holds backend store shares) :
    Usable store := by
  obtain ⟨bytes, file, _⟩ := holds
  intro other found
  rw [file] at found
  cases found
  exact ⟨bytes, rfl⟩

/-- The content of a log is determined by the shares it encodes. -/
theorem Encodes.unique
    {shares : List Share}
    {first second : List UInt8}
    (firstEncodes : Encodes backend shares first)
    (secondEncodes : Encodes backend shares second) :
    first = second := by
  induction firstEncodes generalizing second with
  | nil =>
      cases secondEncodes
      rfl
  | cons serialized keyed _ inductionHypothesis =>
      cases secondEncodes with
      | cons otherSerialized otherKeyed later =>
          rw [serialized] at otherSerialized
          rw [keyed] at otherKeyed
          cases otherSerialized
          cases otherKeyed
          rw [inductionHypothesis later]

end ShareStore

end ZanoP2pool
