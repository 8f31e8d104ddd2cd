import ZanoP2pool.Share

namespace ZanoP2pool

open Foundation

/-!
# The share encoding round trip

Every share the serializer accepts is read back unchanged from its encoding,
and the encoding has the size of its version.
-/

section Fields

theorem readHash_hashBytes
    (hash : Hash256)
    (rest : List UInt8) :
    readHash (hashBytes hash ++ rest) = .ok (hash, rest) := by
  have fits : hash.toNat < 256 ^ 32 := by
    have bound := hash.isLt
    norm_num at bound ⊢
    exact bound
  unfold readHash hashBytes
  rw [cursor_bind_of_ok (takeBigEndian_bigEndian fits _ rest)]
  simp [pure, StateT.pure, Except.pure]

theorem readDifficulty_difficultyBytes
    (difficulty : Difficulty128)
    (rest : List UInt8) :
    readDifficulty (difficultyBytes difficulty ++ rest) =
      .ok (difficulty, rest) := by
  have fits : difficulty.toNat < 256 ^ 16 := by
    have bound := difficulty.isLt
    norm_num at bound ⊢
    exact bound
  unfold readDifficulty difficultyBytes
  rw [cursor_bind_of_ok (takeBigEndian_bigEndian fits _ rest)]
  simp [pure, StateT.pure, Except.pure]

theorem readU64Be_appendU64Be
    (value : UInt64)
    (rest : List UInt8) :
    readU64Be (appendU64Be value ++ rest) = .ok (value, rest) := by
  have fits : value.toNat < 256 ^ 8 := by
    have bound := value.toNat_lt
    norm_num at bound ⊢
    exact bound
  unfold readU64Be appendU64Be
  rw [cursor_bind_of_ok (takeBigEndian_bigEndian fits _ rest)]
  simp [pure, StateT.pure, Except.pure]

end Fields

/-- The payout keys that a version 2 encoding ends with. -/
def payoutBytes (payout : Option PayoutPublicKeys) : List UInt8 :=
  match payout with
  | some payout =>
      hashBytes payout.spendPublicKey ++ hashBytes payout.viewPublicKey
  | none => []

/-- A share belongs to version 1 or carries the payout of version 2. -/
inductive Serializable (backend : Backend) (share : Share) : Prop where
  | version1 :
      share.version = kShareVersion1 →
      share.payout = none →
      Serializable backend share
  | version2
      {payout : PayoutPublicKeys} :
      share.version = kShareVersion2 →
      share.payout = some payout →
      share.minerId = minerIdFromPayout backend payout →
      Serializable backend share

/-- Size of the encoding of a share of the given version. -/
def serializedSize (version : UInt8) : Nat :=
  if version = kShareVersion1 then kShareV1SerializedSize
  else kShareV2SerializedSize

theorem length_shareFieldBytes
    (share : Share) :
    (shareFieldBytes share).length = kShareV1SerializedSize := by
  simp [shareFieldBytes, hashBytes, appendU64Be, difficultyBytes, kShareMagic,
    kShareV1SerializedSize]

variable {backend : Backend} {share : Share} {bytes : List UInt8}

/-- The serializer accepts exactly the shares of the two versions. -/
theorem serializeShare_eq_ok :
    serializeShare backend share = .ok bytes ↔
      Serializable backend share ∧
      bytes = shareFieldBytes share ++ payoutBytes share.payout := by
  have different : kShareVersion1 ≠ kShareVersion2 := by decide
  constructor
  · intro serialized
    unfold serializeShare at serialized
    by_cases first : share.version = kShareVersion1
    · cases payout : share.payout with
      | some keys =>
          simp [first, payout, throw, throwThe, MonadExceptOf.throw, bind,
            Except.bind] at serialized
      | none =>
          have size := length_shareFieldBytes share
          simp [first, payout, different, size, pure, Except.pure]
            at serialized
          exact ⟨.version1 first payout, by simp [payoutBytes, serialized]⟩
    · by_cases second : share.version = kShareVersion2
      · cases payout : share.payout with
        | none =>
            simp [second, payout, different.symm, throw, throwThe,
              MonadExceptOf.throw, bind, Except.bind] at serialized
        | some keys =>
            by_cases matching :
                share.minerId = minerIdFromPayout backend keys
            · have size := length_shareFieldBytes share
              simp [second, payout, different.symm, size, matching,
                hashBytes, kShareV2SerializedSize, pure, Except.pure]
                at serialized
              exact ⟨.version2 second payout matching, by
                simp [payoutBytes, hashBytes, ← serialized]⟩
            · simp [second, payout, different.symm, matching, throw,
                throwThe, MonadExceptOf.throw, bind, Except.bind]
                at serialized
      · simp [first, second, throw, throwThe, MonadExceptOf.throw, bind,
          Except.bind] at serialized
  · rintro ⟨serializable, rfl⟩
    have size := length_shareFieldBytes share
    unfold serializeShare
    cases serializable with
    | version1 first payout =>
        simp [first, payout, payoutBytes, different, size, pure, Except.pure]
    | version2 second payout matching =>
        simp [second, payout, payoutBytes, hashBytes, different.symm, size,
          matching, kShareV2SerializedSize, pure, Except.pure]

/-- The encoding of a share has the size of its version. -/
theorem serializeShare_length
    (serialized : serializeShare backend share = .ok bytes) :
    bytes.length = serializedSize share.version := by
  obtain ⟨serializable, rfl⟩ := serializeShare_eq_ok.mp serialized
  have size := length_shareFieldBytes share
  cases serializable with
  | version1 first payout =>
      simp [payoutBytes, payout, size, serializedSize, first]
  | version2 second payout _ =>
      simp [payoutBytes, payout, size, serializedSize, second, hashBytes,
        kShareV2SerializedSize, kShareVersion1, kShareVersion2]

/-- The fields that follow the version are read back one by one. -/
theorem readShareFields_fieldBytes
    (serializable : Serializable backend share) :
    readShareFields backend share.version
        ((shareFieldBytes share ++ payoutBytes share.payout).drop 5) =
      .ok (share, []) := by
  have different : kShareVersion1 ≠ kShareVersion2 := by decide
  have shape :
      (shareFieldBytes share ++ payoutBytes share.payout).drop 5 =
        hashBytes share.parentId ++ (appendU64Be share.shareHeight ++
          (appendU64Be share.timestamp ++ (appendU64Be share.zanoHeight ++
            (hashBytes share.miningHeaderHash ++ (appendU64Be share.nonce ++
              (difficultyBytes share.shareDifficulty ++
                (difficultyBytes share.networkDifficulty ++
                  (hashBytes share.minerId ++
                    payoutBytes share.payout)))))))) := by
    simp [shareFieldBytes, kShareMagic]
  rw [shape]
  unfold readShareFields
  rw [cursor_bind_of_ok (readHash_hashBytes _ _),
    cursor_bind_of_ok (readU64Be_appendU64Be _ _),
    cursor_bind_of_ok (readU64Be_appendU64Be _ _),
    cursor_bind_of_ok (readU64Be_appendU64Be _ _),
    cursor_bind_of_ok (readHash_hashBytes _ _),
    cursor_bind_of_ok (readU64Be_appendU64Be _ _),
    cursor_bind_of_ok (readDifficulty_difficultyBytes _ _),
    cursor_bind_of_ok (readDifficulty_difficultyBytes _ _),
    cursor_bind_of_ok (readHash_hashBytes _ _)]
  cases serializable with
  | version1 first payout =>
      rw [first, if_neg different, payout]
      simp only [payoutBytes, pure, StateT.pure, Except.pure, ← first,
        ← payout]
  | @version2 keys second payout matching =>
      have lastKey : readHash (hashBytes keys.viewPublicKey) =
          .ok (keys.viewPublicKey, []) := by
        simpa using readHash_hashBytes keys.viewPublicKey []
      rw [second, if_pos rfl, payout]
      simp only [payoutBytes]
      rw [cursor_bind_of_ok (readHash_hashBytes _ _),
        cursor_bind_of_ok lastKey,
        if_neg (not_not_intro matching)]
      simp only [pure, StateT.pure, Except.pure, ← second, ← payout]

/-- Reading an encoding back returns the share it was made from. -/
theorem deserializeShare_serializeShare
    (serialized : serializeShare backend share = .ok bytes) :
    deserializeShare backend bytes = .ok share := by
  have length := serializeShare_length serialized
  unfold serializedSize at length
  obtain ⟨serializable, rfl⟩ := serializeShare_eq_ok.mp serialized
  have read := readShareFields_fieldBytes serializable
  have magic :
      (shareFieldBytes share ++ payoutBytes share.payout).take 4 =
        kShareMagic := by
    simp [shareFieldBytes, kShareMagic]
  have version :
      (shareFieldBytes share ++ payoutBytes share.payout).drop 4 =
        share.version ::
          (shareFieldBytes share ++ payoutBytes share.payout).drop 5 := by
    simp [shareFieldBytes, kShareMagic]
  have supported :
      ¬ (share.version ≠ kShareVersion1 ∧ share.version ≠ kShareVersion2) := by
    cases serializable with
    | version1 first _ => simp [first]
    | version2 second _ _ => simp [second]
  have large :
      ¬ (shareFieldBytes share ++ payoutBytes share.payout).length < 5 := by
    have size := length_shareFieldBytes share
    rw [List.length_append, size, kShareV1SerializedSize]
    omega
  unfold deserializeShare
  rw [if_neg large, if_neg (not_not_intro magic), version]
  simp only [if_neg supported]
  rw [if_neg (not_not_intro length)]
  simp [StateT.run, read, bind, Except.bind, pure, Except.pure]

end ZanoP2pool
