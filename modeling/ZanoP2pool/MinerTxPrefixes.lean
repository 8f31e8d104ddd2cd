import ZanoP2pool.Foundation.VarintFormat
import ZanoP2pool.Foundation.Words
import ZanoP2pool.P2pPayoutPolicy
import ZanoP2pool.ProofSlicing

namespace ZanoP2pool

open Foundation

/-!
# The format of a miner-transaction prefix

The prefix of a miner transaction is read four times: for the mining header, for the
payout policy, for the proofs and for the transaction key.  The format is written
down once, as a relation between what a prefix says and its bytes, and every reader
is measured against it.
-/

/-- One extra field and the transaction key it carries, if it is the key field. -/
inductive ExtraField : Option ZanoCurveKey → List UInt8 → Prop where
  | blob
      {tag : UInt8}
      {content : List UInt8} :
      tag = 11 ∨ tag = 19 ∨ tag = 21 →
      content.length < 2 ^ 64 →
      ExtraField none (tag :: (varint content.length ++ content))
  | number
      {tag : UInt8}
      {value : Nat} :
      tag = 14 ∨ tag = 15 ∨ tag = 16 ∨ tag = 78 →
      value < 2 ^ 64 →
      ExtraField none (tag :: varint value)
  | delegation
      {first second : Nat}
      {content : List UInt8} :
      first < 2 ^ 64 →
      content.length = 32 →
      second < 2 ^ 64 →
      ExtraField none (18 :: (varint first ++ (content ++ varint second)))
  | key
      (key : ZanoCurveKey) :
      ExtraField (some key) (22 :: bigEndian 32 key.toNat)

/-- A number of extra fields and the keys among them, in order. -/
inductive ExtraFields : Nat → List ZanoCurveKey → List UInt8 → Prop where
  | nil : ExtraFields 0 [] []
  | cons
      {count : Nat}
      {key : Option ZanoCurveKey}
      {keys : List ZanoCurveKey}
      {field fields : List UInt8} :
      ExtraField key field →
      ExtraFields count keys fields →
      ExtraFields (count + 1) (key.toList ++ keys) (field ++ fields)

/-- The bytes of an output; the last 17 are its amount, payment id and mix attribute. -/
def outputBytes (output : ParsedPayoutOutput) (tail : List UInt8) : List UInt8 :=
  63 :: 0 :: (bigEndian 32 output.stealthAddress.toNat ++
    (bigEndian 32 output.concealingPoint.toNat ++
      (bigEndian 32 output.amountCommitment.toNat ++
        (bigEndian 32 output.blindedAssetId.toNat ++ tail))))

/-- The bytes of several outputs, in order. -/
inductive OutputBytes : List ParsedPayoutOutput → List UInt8 → Prop where
  | nil : OutputBytes [] []
  | cons
      {output : ParsedPayoutOutput}
      {outputs : List ParsedPayoutOutput}
      {tail bytes : List UInt8} :
      tail.length = 17 →
      OutputBytes outputs bytes →
      OutputBytes (output :: outputs) (outputBytes output tail ++ bytes)

/-- A prefix up to its extra fields: version, the generating input and the count. -/
def prefixHead (height extraCount : Nat) (rest : List UInt8) : List UInt8 :=
  varint 4 ++ (varint 1 ++ (0 :: (varint height ++ (varint extraCount ++ rest))))

/-- The keys and the outputs of a whole prefix. -/
inductive PrefixBytes
    (extraCount : Nat)
    (keys : List ZanoCurveKey)
    (outputs : List ParsedPayoutOutput) :
    List UInt8 → Prop where
  | intro
      {height : Nat}
      {fields bytes : List UInt8} :
      height < 2 ^ 64 →
      ExtraFields extraCount keys fields →
      OutputBytes outputs bytes →
      PrefixBytes extraCount keys outputs
        (prefixHead height extraCount
          (fields ++ (varint outputs.length ++ (bytes ++ [6]))))

/-- Thirty-two bytes are the bytes of a key. -/
theorem bigEndian_keyOfBytes
    {bytes : List UInt8}
    (sized : bytes.length = 32) :
    bigEndian 32 (keyOfBytes bytes).toNat = bytes := by
  have small : ofBigEndian bytes < 2 ^ 256 := by
    have bound := ofBigEndian_lt bytes
    rw [sized] at bound
    exact lt_of_lt_of_eq bound (by norm_num)
  rw [keyOfBytes, BitVec.toNat_ofNat, Nat.mod_eq_of_lt small, ← sized,
    bigEndian_ofBigEndian]

/-- The readers that the parsers of a prefix are made of. -/
structure PrefixReaders where
  readU8 : Cursor Exception UInt8
  readVarint : Cursor Exception Nat
  skip : Nat → Cursor Exception Unit
  readKey : Cursor Exception ZanoCurveKey

namespace PrefixReaders

def skipBlob (readers : PrefixReaders) : Cursor Exception Unit := do
  let count ← readers.readVarint
  readers.skip count

/-- The readers accept exactly the encodings of what they return. -/
structure Exact (readers : PrefixReaders) : Prop where
  readU8 :
    ∀ {bytes rest : List UInt8} {value : UInt8},
      readers.readU8 bytes = .ok (value, rest) ↔ bytes = value :: rest
  readVarint :
    ∀ {bytes rest : List UInt8} {value : Nat},
      readers.readVarint bytes = .ok (value, rest) ↔
        value < 2 ^ 64 ∧ bytes = varint value ++ rest
  skip :
    ∀ {bytes rest : List UInt8} {count : Nat},
      readers.skip count bytes = .ok ((), rest) ↔
        ∃ skipped : List UInt8,
          skipped.length = count ∧ bytes = skipped ++ rest
  readKey :
    ∀ {bytes rest : List UInt8} {key : ZanoCurveKey},
      readers.readKey bytes = .ok (key, rest) ↔
        bytes = bigEndian 32 key.toNat ++ rest

theorem Exact.skipBlob
    {readers : PrefixReaders}
    (exact : readers.Exact)
    {bytes rest : List UInt8} :
    readers.skipBlob bytes = .ok ((), rest) ↔
      ∃ content : List UInt8,
        content.length < 2 ^ 64 ∧
          bytes = varint content.length ++ (content ++ rest) := by
  unfold PrefixReaders.skipBlob
  simp only [cursor_bind_eq_ok, exact.readVarint, exact.skip]
  constructor
  · rintro ⟨_, _, ⟨fits, rfl⟩, content, rfl, rfl⟩
    exact ⟨content, fits, rfl⟩
  · rintro ⟨content, fits, rfl⟩
    exact ⟨_, _, ⟨fits, rfl⟩, content, rfl, rfl⟩

def minerTx : PrefixReaders where
  readU8 := MinerTx.readU8
  readVarint := MinerTx.readVarint
  skip := MinerTx.skip
  readKey := MinerTx.readKey

def proofData : PrefixReaders where
  readU8 := ProofData.readU8
  readVarint := ProofData.readVarint
  skip := ProofData.skip
  readKey := ProofData.readKey

/-- Taking bytes and dropping them skips any bytes of that number. -/
theorem skip_eq_ok
    {truncated : Exception}
    {bytes rest : List UInt8}
    {count : Nat} :
    (do
        let _ ← takeBytes count truncated
        return () : Cursor Exception Unit) bytes = .ok ((), rest) ↔
      ∃ skipped : List UInt8,
        skipped.length = count ∧ bytes = skipped ++ rest := by
  simp only [cursor_bind_eq_ok, takeBytes_eq_ok, cursor_pure_eq_ok]
  constructor
  · rintro ⟨skipped, _, ⟨sized, rfl⟩, _, rfl⟩
    exact ⟨skipped, sized, rfl⟩
  · rintro ⟨skipped, sized, rfl⟩
    exact ⟨skipped, rest, ⟨sized, rfl⟩, trivial, rfl⟩

end PrefixReaders

theorem MinerTx.readU8_eq_ok
    {bytes rest : List UInt8}
    {value : UInt8} :
    MinerTx.readU8 bytes = .ok (value, rest) ↔ bytes = value :: rest :=
  takeByte_eq_ok

theorem MinerTx.readVarint_eq_ok
    {bytes rest : List UInt8}
    {value : Nat} :
    MinerTx.readVarint bytes = .ok (value, rest) ↔
      value < 2 ^ 64 ∧ bytes = varint value ++ rest :=
  takeShortest_takeVarint_eq_ok

theorem MinerTx.skip_eq_ok
    {bytes rest : List UInt8}
    {count : Nat}
    {done : Unit} :
    MinerTx.skip count bytes = .ok (done, rest) ↔
      ∃ skipped : List UInt8,
        skipped.length = count ∧ bytes = skipped ++ rest :=
  PrefixReaders.skip_eq_ok

theorem MinerTx.readKey_eq_ok
    {bytes rest : List UInt8}
    {key : ZanoCurveKey} :
    MinerTx.readKey bytes = .ok (key, rest) ↔
      bytes = bigEndian 32 key.toNat ++ rest :=
  takeBitVec256_eq_ok

theorem ProofData.readU8_eq_ok
    {bytes rest : List UInt8}
    {value : UInt8} :
    ProofData.readU8 bytes = .ok (value, rest) ↔ bytes = value :: rest :=
  takeByte_eq_ok

theorem ProofData.readVarint_eq_ok
    {bytes rest : List UInt8}
    {value : Nat} :
    ProofData.readVarint bytes = .ok (value, rest) ↔
      value < 2 ^ 64 ∧ bytes = varint value ++ rest :=
  takeShortest_takeVarint_eq_ok

theorem ProofData.skip_eq_ok
    {bytes rest : List UInt8}
    {count : Nat}
    {done : Unit} :
    ProofData.skip count bytes = .ok (done, rest) ↔
      ∃ skipped : List UInt8,
        skipped.length = count ∧ bytes = skipped ++ rest :=
  PrefixReaders.skip_eq_ok

theorem ProofData.readKey_eq_ok
    {bytes rest : List UInt8}
    {key : ZanoCurveKey} :
    ProofData.readKey bytes = .ok (key, rest) ↔
      bytes = bigEndian 32 key.toNat ++ rest :=
  takeBitVec256_eq_ok

namespace PrefixReaders

theorem minerTx_exact : minerTx.Exact :=
  ⟨MinerTx.readU8_eq_ok, MinerTx.readVarint_eq_ok, MinerTx.skip_eq_ok,
    MinerTx.readKey_eq_ok⟩

theorem proofData_exact : proofData.Exact :=
  ⟨ProofData.readU8_eq_ok, ProofData.readVarint_eq_ok, ProofData.skip_eq_ok,
    ProofData.readKey_eq_ok⟩

/-- The checks that open a prefix, before its extra fields are read. -/
def headThen
    {α : Type}
    (readers : PrefixReaders)
    (badVersion badCount badInput badExtra : Exception)
    (next : Nat → Cursor Exception α) :
    Cursor Exception α := do
  let version ← readers.readVarint
  if version ≠ 4 then
    throw badVersion
  else do
    let vinCount ← readers.readVarint
    if vinCount ≠ 1 then
      throw badCount
    else do
      let input ← readers.readU8
      if input ≠ 0 then
        throw badInput
      else do
        let _ ← readers.readVarint
        let extraCount ← readers.readVarint
        if extraCount > 1024 then
          throw badExtra
        else
          next extraCount

theorem Exact.headThen_eq_ok
    {α : Type}
    {readers : PrefixReaders}
    (exact : readers.Exact)
    {badVersion badCount badInput badExtra : Exception}
    {next : Nat → Cursor Exception α}
    {bytes rest : List UInt8}
    {value : α} :
    readers.headThen badVersion badCount badInput badExtra next bytes =
        .ok (value, rest) ↔
      ∃ height extraCount body,
        height < 2 ^ 64 ∧ extraCount ≤ 1024 ∧
          bytes = prefixHead height extraCount body ∧
          next extraCount body = .ok (value, rest) := by
  unfold headThen
  simp only [cursor_bind_eq_ok, cursor_guard_eq_ok, exact.readVarint,
    exact.readU8, not_not, not_lt]
  constructor
  · rintro ⟨_, _, ⟨_, rfl⟩, rfl, _, _, ⟨_, rfl⟩, rfl, _, _, rfl, rfl, height, _,
      ⟨heightFits, rfl⟩, extraCount, body, ⟨_, rfl⟩, few, read⟩
    exact ⟨height, extraCount, body, heightFits, few, rfl, read⟩
  · rintro ⟨height, extraCount, body, heightFits, few, rfl, read⟩
    exact ⟨4, _, ⟨by norm_num, rfl⟩, rfl, 1, _, ⟨by norm_num, rfl⟩, rfl, 0, _, rfl,
      rfl, height, _, ⟨heightFits, rfl⟩, extraCount, body,
      ⟨lt_of_le_of_lt few (by norm_num), rfl⟩, few, read⟩

/-- Read a number of extra fields and the only key among them. -/
def extraFields
    (readers : PrefixReaders)
    (multiple : Exception)
    (unsupported : UInt8 → Exception) :
    Nat → Option ZanoCurveKey → Cursor Exception (Option ZanoCurveKey)
  | 0, found => return found
  | count + 1, found => do
      let tag ← readers.readU8
      if tag = 11 ∨ tag = 19 ∨ tag = 21 then do
        readers.skipBlob
        extraFields readers multiple unsupported count found
      else if tag = 14 ∨ tag = 15 ∨ tag = 16 ∨ tag = 78 then do
        let _ ← readers.readVarint
        extraFields readers multiple unsupported count found
      else if tag = 18 then do
        let _ ← readers.readVarint
        readers.skip 32
        let _ ← readers.readVarint
        extraFields readers multiple unsupported count found
      else if tag = 22 then
        if found.isSome then
          throw multiple
        else do
          let key ← readers.readKey
          extraFields readers multiple unsupported count (some key)
      else
        throw (unsupported tag)

/-- The reader finds the only key of the fields and refuses a second one. -/
theorem Exact.extraFields_eq_ok
    {readers : PrefixReaders}
    (exact : readers.Exact)
    {multiple : Exception}
    {unsupported : UInt8 → Exception}
    {bytes rest : List UInt8}
    {count : Nat}
    {found result : Option ZanoCurveKey} :
    readers.extraFields multiple unsupported count found bytes =
        .ok (result, rest) ↔
      ∃ keys fields,
        ExtraFields count keys fields ∧ bytes = fields ++ rest ∧
          (found.toList ++ keys).length ≤ 1 ∧
          result = (found.toList ++ keys).head? := by
  induction count generalizing bytes found with
  | zero =>
      rw [extraFields, cursor_pure_eq_ok]
      constructor
      · rintro ⟨rfl, rfl⟩
        exact ⟨[], [], .nil, rfl, by cases found <;> simp,
          by cases found <;> rfl⟩
      · rintro ⟨keys, fields, isFields, rfl, _, rfl⟩
        cases isFields
        exact ⟨by cases found <;> rfl, rfl⟩
  | succ count inductionHypothesis =>
      rw [extraFields, cursor_bind_eq_ok]
      constructor
      · rintro ⟨tag, middle, taken, read⟩
        obtain rfl := exact.readU8.mp taken
        split_ifs at read with isBlob isNumber isDelegation isKey already
        · obtain ⟨_, remaining, skipped, later⟩ := cursor_bind_eq_ok.mp read
          obtain ⟨content, fits, rfl⟩ := exact.skipBlob.mp skipped
          obtain ⟨keys, fields, isFields, rfl, single, chosen⟩ :=
            inductionHypothesis.mp later
          exact ⟨keys, _, .cons (.blob isBlob fits) isFields, by simp, single,
            chosen⟩
        · obtain ⟨value, remaining, number, later⟩ := cursor_bind_eq_ok.mp read
          obtain ⟨fits, rfl⟩ := exact.readVarint.mp number
          obtain ⟨keys, fields, isFields, rfl, single, chosen⟩ :=
            inductionHypothesis.mp later
          exact ⟨keys, _, .cons (.number isNumber fits) isFields, by simp,
            single, chosen⟩
        · obtain ⟨first, afterFirst, number, later⟩ := cursor_bind_eq_ok.mp read
          obtain ⟨firstFits, rfl⟩ := exact.readVarint.mp number
          obtain ⟨_, afterKey, skipped, latest⟩ := cursor_bind_eq_ok.mp later
          obtain ⟨content, sized, rfl⟩ := exact.skip.mp skipped
          obtain ⟨second, remaining, other, final⟩ :=
            cursor_bind_eq_ok.mp latest
          obtain ⟨secondFits, rfl⟩ := exact.readVarint.mp other
          obtain ⟨keys, fields, isFields, rfl, single, chosen⟩ :=
            inductionHypothesis.mp final
          subst isDelegation
          exact ⟨keys, _, .cons (.delegation firstFits sized secondFits)
            isFields, by simp, single, chosen⟩
        · exact absurd read cursor_throw_ne_ok
        · obtain ⟨key, remaining, extracted, later⟩ := cursor_bind_eq_ok.mp read
          obtain rfl := exact.readKey.mp extracted
          obtain ⟨keys, fields, isFields, rfl, single, chosen⟩ :=
            inductionHypothesis.mp later
          have absent : found = none := Option.not_isSome_iff_eq_none.mp already
          subst isKey absent
          exact ⟨key :: keys, _, .cons (.key key) isFields, by simp, single,
            chosen⟩
        · exact absurd read cursor_throw_ne_ok
      · rintro ⟨keys, fields, isFields, rfl, single, chosen⟩
        cases isFields with
        | @cons _ key keys field fields isField isFields =>
            cases isField with
            | @blob tag content isBlob fits =>
                refine ⟨tag, _, exact.readU8.mpr rfl, ?_⟩
                rw [if_pos isBlob, cursor_bind_eq_ok]
                exact ⟨(), fields ++ rest,
                  exact.skipBlob.mpr ⟨content, fits, by simp⟩,
                  inductionHypothesis.mpr
                    ⟨keys, fields, isFields, rfl, single, chosen⟩⟩
            | @number tag value isNumber fits =>
                have notBlob : ¬ (tag = 11 ∨ tag = 19 ∨ tag = 21) := by
                  rcases isNumber with rfl | rfl | rfl | rfl <;> decide
                refine ⟨tag, _, exact.readU8.mpr rfl, ?_⟩
                rw [if_neg notBlob, if_pos isNumber, cursor_bind_eq_ok]
                exact ⟨value, fields ++ rest,
                  exact.readVarint.mpr ⟨fits, by simp⟩,
                  inductionHypothesis.mpr
                    ⟨keys, fields, isFields, rfl, single, chosen⟩⟩
            | @delegation first second content firstFits sized secondFits =>
                refine ⟨18, _, exact.readU8.mpr rfl, ?_⟩
                rw [if_neg (by decide), if_neg (by decide), if_pos rfl,
                  cursor_bind_eq_ok]
                refine ⟨first, _,
                  exact.readVarint.mpr ⟨firstFits, by simp; rfl⟩, ?_⟩
                rw [cursor_bind_eq_ok]
                refine ⟨(), _,
                  exact.skip.mpr ⟨content, sized, rfl⟩, ?_⟩
                rw [cursor_bind_eq_ok]
                exact ⟨second, fields ++ rest,
                  exact.readVarint.mpr ⟨secondFits, rfl⟩,
                  inductionHypothesis.mpr
                    ⟨keys, fields, isFields, rfl, single, chosen⟩⟩
            | key key =>
                have absent : found = none := by
                  cases found with
                  | none => rfl
                  | some other => simp at single
                subst absent
                refine ⟨22, _, exact.readU8.mpr rfl, ?_⟩
                rw [if_neg (by decide), if_neg (by decide), if_neg (by decide),
                  if_pos rfl, if_neg (by simp), cursor_bind_eq_ok]
                exact ⟨key, fields ++ rest,
                  exact.readKey.mpr (by simp),
                  inductionHypothesis.mpr
                    ⟨keys, fields, isFields, rfl, single, chosen⟩⟩

end PrefixReaders

section Extras

variable {bytes rest : List UInt8}

/-- The payout reader skips exactly the fields of the format. -/
theorem skipCurrentExtra_eq_ok
    {tag : UInt8}
    {done : Unit} :
    skipCurrentExtra tag bytes = .ok (done, rest) ↔
      ∃ key body, ExtraField key (tag :: body) ∧ bytes = body ++ rest := by
  unfold skipCurrentExtra
  constructor
  · intro read
    split_ifs at read with isBlob isNumber isDelegation isKey
    · obtain ⟨content, fits, rfl⟩ := PrefixReaders.minerTx_exact.skipBlob.mp read
      exact ⟨none, _, .blob isBlob fits, (List.append_assoc _ _ _).symm⟩
    · simp only [cursor_bind_eq_ok, MinerTx.readVarint_eq_ok,
        cursor_pure_eq_ok] at read
      obtain ⟨value, _, ⟨fits, rfl⟩, _, rfl⟩ := read
      exact ⟨none, _, .number isNumber fits, rfl⟩
    · simp only [cursor_bind_eq_ok, MinerTx.readVarint_eq_ok,
        MinerTx.skip_eq_ok, cursor_pure_eq_ok] at read
      obtain ⟨first, _, ⟨firstFits, rfl⟩, _, _, ⟨content, sized, rfl⟩, second,
        _, ⟨secondFits, rfl⟩, _, rfl⟩ := read
      subst isDelegation
      exact ⟨none, _, .delegation firstFits sized secondFits, by
        simp only [List.append_assoc]⟩
    · obtain ⟨skipped, sized, rfl⟩ := MinerTx.skip_eq_ok.mp read
      subst isKey
      refine ⟨some (keyOfBytes skipped), skipped, ?_, rfl⟩
      have field := ExtraField.key (keyOfBytes skipped)
      rw [bigEndian_keyOfBytes sized] at field
      exact field
    · exact absurd read cursor_throw_ne_ok
  · rintro ⟨key, body, field, rfl⟩
    cases field with
    | blob isBlob fits =>
        rw [if_pos isBlob]
        exact PrefixReaders.minerTx_exact.skipBlob.mpr ⟨_, fits, List.append_assoc _ _ _⟩
    | number isNumber fits =>
        have notBlob : ¬ (tag = 11 ∨ tag = 19 ∨ tag = 21) := by
          rcases isNumber with rfl | rfl | rfl | rfl <;> decide
        rw [if_neg notBlob, if_pos isNumber]
        simp only [cursor_bind_eq_ok, MinerTx.readVarint_eq_ok,
          cursor_pure_eq_ok]
        exact ⟨_, rest, ⟨fits, rfl⟩, trivial, rfl⟩
    | delegation firstFits sized secondFits =>
        rw [if_neg (by decide), if_neg (by decide), if_pos rfl]
        simp only [cursor_bind_eq_ok, MinerTx.readVarint_eq_ok,
          MinerTx.skip_eq_ok, cursor_pure_eq_ok]
        exact ⟨_, _, ⟨firstFits, List.append_assoc _ _ _⟩, (), _,
          ⟨_, sized, List.append_assoc _ _ _⟩, _, rest, ⟨secondFits, rfl⟩,
          trivial, rfl⟩
    | key key =>
        rw [if_neg (by decide), if_neg (by decide), if_neg (by decide),
          if_pos rfl]
        exact MinerTx.skip_eq_ok.mpr ⟨_, length_bigEndian _ _, rfl⟩

theorem skipCurrentExtras_eq_ok
    {count : Nat}
    {done : Unit} :
    skipCurrentExtras count bytes = .ok (done, rest) ↔
      ∃ keys fields, ExtraFields count keys fields ∧ bytes = fields ++ rest := by
  induction count generalizing bytes with
  | zero =>
      rw [skipCurrentExtras, cursor_pure_eq_ok]
      constructor
      · rintro ⟨_, rfl⟩
        exact ⟨[], [], .nil, rfl⟩
      · rintro ⟨keys, fields, isFields, rfl⟩
        cases isFields
        exact ⟨rfl, rfl⟩
  | succ count inductionHypothesis =>
      rw [skipCurrentExtras]
      simp only [cursor_bind_eq_ok, MinerTx.readU8_eq_ok,
        skipCurrentExtra_eq_ok, inductionHypothesis]
      constructor
      · rintro ⟨tag, _, rfl, _, _, ⟨key, body, field, rfl⟩, keys, fields,
          isFields, rfl⟩
        exact ⟨_, _, .cons field isFields, by simp⟩
      · rintro ⟨keys, fields, isFields, rfl⟩
        cases isFields with
        | @cons _ key keys field fields isField isFields =>
            obtain ⟨tag, body, rfl⟩ : ∃ tag body, field = tag :: body := by
              cases isField <;> exact ⟨_, _, rfl⟩
            exact ⟨tag, body ++ (fields ++ rest), by simp, (), fields ++ rest,
              ⟨key, body, isField, rfl⟩, keys, fields, isFields, rfl⟩

/-- Both readers of transaction keys are the reader of the format. -/
theorem readExtraFields_eq
    (count : Nat)
    (found : Option ZanoCurveKey) :
    readExtraFields count found =
      PrefixReaders.minerTx.extraFields
        (.runtimeError "miner transaction has multiple tx public keys")
        (fun tag => .runtimeError
          ("unsupported miner transaction extra tag: " ++ toString tag))
        count found := by
  induction count generalizing found with
  | zero => rfl
  | succ count inductionHypothesis =>
      rw [readExtraFields, PrefixReaders.extraFields]
      simp only [inductionHypothesis]
      rfl

theorem parseCurrentExtras_eq
    (count : Nat)
    (found : Option ZanoCurveKey) :
    parseCurrentExtras count found =
      PrefixReaders.proofData.extraFields
        (.runtimeError "multiple miner transaction public keys")
        (fun tag => .runtimeError
          ("unsupported current miner-tx extra tag: " ++ toString tag))
        count found := by
  induction count generalizing found with
  | zero => rfl
  | succ count inductionHypothesis =>
      rw [parseCurrentExtras, PrefixReaders.extraFields]
      simp only [inductionHypothesis]
      rfl

/-- The bytes of a prefix fix the number of its extra fields and what follows. -/
theorem prefixHead_injective
    {height otherHeight extraCount otherCount : Nat}
    {body otherBody : List UInt8}
    (heightFits : height < 2 ^ 64)
    (few : extraCount ≤ 1024)
    (otherHeightFits : otherHeight < 2 ^ 64)
    (otherFew : otherCount ≤ 1024)
    (same :
      prefixHead height extraCount body =
        prefixHead otherHeight otherCount otherBody) :
    extraCount = otherCount ∧ body = otherBody := by
  have reads {height extraCount : Nat} {body : List UInt8}
      (heightFits : height < 2 ^ 64) (few : extraCount ≤ 1024) :
      PrefixReaders.minerTx.headThen (.logicError "") (.logicError "")
          (.logicError "") (.logicError "") (fun extraCount => pure extraCount)
          (prefixHead height extraCount body) =
        .ok (extraCount, body) :=
    PrefixReaders.minerTx_exact.headThen_eq_ok.mpr
      ⟨height, extraCount, body, heightFits, few, rfl, rfl⟩
  have first := @reads _ _ body heightFits few
  rw [same, reads otherHeightFits otherFew] at first
  cases first
  exact ⟨rfl, rfl⟩

/-- Two readings of a number of fields end at the same place. -/
theorem extraFields_unique
    {count : Nat}
    {keys otherKeys : List ZanoCurveKey}
    {fields otherFields rest otherRest : List UInt8}
    (isFields : ExtraFields count keys fields)
    (otherIsFields : ExtraFields count otherKeys otherFields)
    (same : fields ++ rest = otherFields ++ otherRest) :
    fields = otherFields := by
  have first : skipCurrentExtras count (fields ++ rest) = .ok ((), rest) :=
    skipCurrentExtras_eq_ok.mpr ⟨keys, fields, isFields, rfl⟩
  have second :
      skipCurrentExtras count (otherFields ++ otherRest) =
        .ok ((), otherRest) :=
    skipCurrentExtras_eq_ok.mpr ⟨otherKeys, otherFields, otherIsFields, rfl⟩
  exact (field_unique first second same).1

end Extras

section Outputs

variable {bytes rest : List UInt8}

theorem readPayoutOutput_eq_ok
    {output : ParsedPayoutOutput} :
    readPayoutOutput bytes = .ok (output, rest) ↔
      ∃ tail : List UInt8,
        tail.length = 17 ∧ bytes = outputBytes output tail ++ rest := by
  have exact := PrefixReaders.minerTx_exact
  unfold readPayoutOutput outputBytes
  simp only [cursor_bind_eq_ok, cursor_guard_eq_ok, cursor_pure_eq_ok]
  constructor
  · rintro ⟨tag, _, taken, current, version, _, versionTaken, supported, stealth,
      _, first, concealing, _, second, amount, _, third, asset, _, fourth, _, _,
      skipped, rfl, rfl⟩
    obtain rfl := exact.readU8.mp taken
    obtain rfl := exact.readU8.mp versionTaken
    obtain rfl := exact.readKey.mp first
    obtain rfl := exact.readKey.mp second
    obtain rfl := exact.readKey.mp third
    obtain rfl := exact.readKey.mp fourth
    obtain ⟨tail, sized, rfl⟩ := exact.skip.mp skipped
    rw [not_not] at current supported
    subst current supported
    exact ⟨tail, sized, by simp⟩
  · rintro ⟨tail, sized, rfl⟩
    exact ⟨63, _, exact.readU8.mpr rfl, by decide, 0, _, exact.readU8.mpr rfl,
      by decide, _, _, exact.readKey.mpr (List.append_assoc _ _ _), _, _,
      exact.readKey.mpr (List.append_assoc _ _ _), _, _,
      exact.readKey.mpr (List.append_assoc _ _ _), _, _,
      exact.readKey.mpr (List.append_assoc _ _ _), (), _,
      exact.skip.mpr ⟨tail, sized, rfl⟩, rfl, rfl⟩

/-- The payout reader reads exactly the outputs of the format. -/
theorem readPayoutOutputs_eq_ok
    {count : Nat}
    {outputs : List ParsedPayoutOutput} :
    readPayoutOutputs count bytes = .ok (outputs, rest) ↔
      outputs.length = count ∧
        ∃ consumed, OutputBytes outputs consumed ∧ bytes = consumed ++ rest := by
  induction count generalizing bytes rest outputs with
  | zero =>
      rw [readPayoutOutputs, cursor_pure_eq_ok]
      constructor
      · rintro ⟨rfl, rfl⟩
        exact ⟨rfl, [], .nil, rfl⟩
      · rintro ⟨none, consumed, spelled, rfl⟩
        cases spelled with
        | nil => exact ⟨rfl, rfl⟩
        | cons _ _ => cases none
  | succ count inductionHypothesis =>
      rw [readPayoutOutputs]
      simp only [cursor_bind_eq_ok, readPayoutOutput_eq_ok,
        inductionHypothesis, cursor_pure_eq_ok]
      constructor
      · rintro ⟨output, _, ⟨tail, sized, rfl⟩, others, _,
          ⟨counted, consumed, spelled, rfl⟩, rfl, rfl⟩
        exact ⟨congrArg Nat.succ counted, _, .cons sized spelled,
          (List.append_assoc _ _ _).symm⟩
      · rintro ⟨counted, consumed, spelled, rfl⟩
        cases spelled with
        | nil => cases counted
        | cons sized spelled =>
            exact ⟨_, _, ⟨_, sized, List.append_assoc _ _ _⟩, _, rest,
              ⟨Nat.succ.inj counted, _, spelled, rfl⟩, rfl, rfl⟩

/-- The reader of the proofs reads the same outputs. -/
theorem readProofOutputs_eq_ok
    {count : Nat}
    {pairs : List (ZanoCurveKey × ZanoCurveKey)} :
    readProofOutputs count bytes = .ok (pairs, rest) ↔
      ∃ outputs consumed,
        outputs.length = count ∧ OutputBytes outputs consumed ∧
          bytes = consumed ++ rest ∧
          pairs =
            outputs.map fun output =>
              (output.amountCommitment, output.blindedAssetId) := by
  have exact := PrefixReaders.proofData_exact
  induction count generalizing bytes rest pairs with
  | zero =>
      rw [readProofOutputs, cursor_pure_eq_ok]
      constructor
      · rintro ⟨rfl, rfl⟩
        exact ⟨[], [], rfl, .nil, rfl, rfl⟩
      · rintro ⟨outputs, consumed, none, spelled, rfl, rfl⟩
        cases spelled with
        | nil => exact ⟨rfl, rfl⟩
        | cons _ _ => cases none
  | succ count inductionHypothesis =>
      rw [readProofOutputs]
      simp only [cursor_bind_eq_ok, cursor_guard_eq_ok, inductionHypothesis,
        cursor_pure_eq_ok]
      constructor
      · rintro ⟨tag, _, taken, current, version, _, versionTaken, supported, _, _,
          first, _, _, second, amount, _, third, asset, _, fourth, _, _, skipped,
          _, _, ⟨outputs, consumed, counted, spelled, rfl, rfl⟩, rfl, rfl⟩
        obtain rfl := exact.readU8.mp taken
        obtain rfl := exact.readU8.mp versionTaken
        obtain ⟨stealth, stealthSized, rfl⟩ := exact.skip.mp first
        obtain ⟨concealing, concealingSized, rfl⟩ := exact.skip.mp second
        obtain rfl := exact.readKey.mp third
        obtain rfl := exact.readKey.mp fourth
        obtain ⟨tail, sized, rfl⟩ := exact.skip.mp skipped
        rw [not_not] at current supported
        subst current supported
        have sameStealth := bigEndian_keyOfBytes stealthSized
        have sameConcealing := bigEndian_keyOfBytes concealingSized
        refine ⟨⟨keyOfBytes stealth, keyOfBytes concealing, amount, asset⟩ ::
          outputs, _, congrArg Nat.succ counted, .cons sized spelled, ?_, rfl⟩
        simp [outputBytes, sameStealth, sameConcealing]
      · rintro ⟨outputs, consumed, counted, spelled, rfl, rfl⟩
        cases spelled with
        | nil => cases counted
        | @cons output outputs tail consumed sized spelled =>
            exact ⟨63, _, exact.readU8.mpr rfl, by decide, 0, _,
              exact.readU8.mpr rfl, by decide, (), _,
              exact.skip.mpr ⟨_, length_bigEndian _ _, by simp; rfl⟩, (), _,
              exact.skip.mpr ⟨_, length_bigEndian _ _, rfl⟩, _, _,
              exact.readKey.mpr rfl, _, _, exact.readKey.mpr rfl, (), _,
              exact.skip.mpr ⟨tail, sized, rfl⟩, _, rest,
              ⟨outputs, consumed, Nat.succ.inj counted, spelled, rfl, rfl⟩, rfl,
              rfl⟩

end Outputs

section Headers

variable {rest : List UInt8}

/-- The header reader passes over every field of the format. -/
theorem skipCurrentCoinbaseExtra_field
    {key : Option ZanoCurveKey}
    {field : List UInt8}
    (isField : ExtraField key field) :
    skipCurrentCoinbaseExtra (field ++ rest) = .ok ((), rest) := by
  have byte (value : UInt8) (after : List UInt8) :
      MiningHeader.readU8 (value :: after) = .ok (value, after) :=
    takeByte_eq_ok.mpr rfl
  have number {value : Nat} (fits : value < 2 ^ 64) (after : List UInt8) :
      MiningHeader.readVarint (varint value ++ after) = .ok (value, after) :=
    takeVarint_varint fits after
  unfold skipCurrentCoinbaseExtra
  cases isField with
  | @blob tag content isBlob fits =>
      rw [List.cons_append, cursor_bind_of_ok (byte _ _), if_pos isBlob,
        List.append_assoc]
      unfold MiningHeader.skipBlob
      rw [cursor_bind_of_ok (number fits _)]
      exact miningHeader_skip_eq_ok.mpr ⟨content, rfl, rfl⟩
  | @number tag value isNumber fits =>
      have notBlob : ¬ (tag = 11 ∨ tag = 19 ∨ tag = 21) := by
        rcases isNumber with rfl | rfl | rfl | rfl <;> decide
      rw [List.cons_append, cursor_bind_of_ok (byte _ _), if_neg notBlob,
        if_pos isNumber, cursor_bind_of_ok (number fits _)]
      rfl
  | @delegation first second content firstFits sized secondFits =>
      rw [List.cons_append, cursor_bind_of_ok (byte _ _), if_neg (by decide),
        if_neg (by decide), if_pos rfl, List.append_assoc, List.append_assoc,
        cursor_bind_of_ok (number firstFits _),
        cursor_bind_of_ok (miningHeader_skip_eq_ok.mpr ⟨content, sized, rfl⟩),
        cursor_bind_of_ok (number secondFits _)]
      rfl
  | key key =>
      rw [List.cons_append, cursor_bind_of_ok (byte _ _), if_neg (by decide),
        if_neg (by decide), if_neg (by decide), if_pos rfl]
      exact miningHeader_skip_eq_ok.mpr ⟨_, length_bigEndian _ _, rfl⟩

theorem repeatRead_extraFields
    {count : Nat}
    {keys : List ZanoCurveKey}
    {fields : List UInt8}
    (isFields : ExtraFields count keys fields) :
    MiningHeader.repeatRead skipCurrentCoinbaseExtra count (fields ++ rest) =
      .ok ((), rest) := by
  induction isFields with
  | nil => rfl
  | cons isField _ inductionHypothesis =>
      rw [MiningHeader.repeatRead, List.append_assoc,
        cursor_bind_of_ok (skipCurrentCoinbaseExtra_field isField)]
      exact inductionHypothesis

theorem repeatRead_outputs
    {outputs : List ParsedPayoutOutput}
    {bytes : List UInt8}
    (spelled : OutputBytes outputs bytes) :
    MiningHeader.repeatRead skipCurrentCoinbaseOutput outputs.length
        (bytes ++ rest) =
      .ok ((), rest) := by
  have byte (value : UInt8) (after : List UInt8) :
      MiningHeader.readU8 (value :: after) = .ok (value, after) :=
    takeByte_eq_ok.mpr rfl
  induction spelled with
  | nil => rfl
  | @cons output outputs tail bytes sized _ inductionHypothesis =>
      have skipped :
          skipCurrentCoinbaseOutput
              (outputBytes output tail ++ (bytes ++ rest)) =
            .ok ((), bytes ++ rest) := by
        unfold skipCurrentCoinbaseOutput outputBytes
        rw [List.cons_append, cursor_bind_of_ok (byte _ _),
          if_neg (by decide), List.cons_append, cursor_bind_of_ok (byte _ _),
          if_neg (by decide)]
        have fields :
            MiningHeader.skip (32 * 4 + (8 + 8 + 1))
                (bigEndian 32 output.stealthAddress.toNat ++
                  (bigEndian 32 output.concealingPoint.toNat ++
                    (bigEndian 32 output.amountCommitment.toNat ++
                      (bigEndian 32 output.blindedAssetId.toNat ++ tail))) ++
                  (bytes ++ rest)) =
              .ok ((), bytes ++ rest) :=
          miningHeader_skip_eq_ok.mpr ⟨_, by simp [sized], rfl⟩
        obtain ⟨middle, keys, others⟩ := miningHeader_skip_add.mp fields
        obtain ⟨last, numbers, mixing⟩ := miningHeader_skip_add.mp others
        rw [cursor_bind_of_ok keys, cursor_bind_of_ok numbers]
        exact mixing
      rw [List.length_cons, MiningHeader.repeatRead, List.append_assoc,
        cursor_bind_of_ok skipped]
      exact inductionHypothesis

/-- The header reader stops at the end of a prefix, whatever follows it. -/
theorem minerTxPrefixFields_prefix
    {extraCount : Nat}
    {keys : List ZanoCurveKey}
    {outputs : List ParsedPayoutOutput}
    {bytes : List UInt8}
    (isPrefix : PrefixBytes extraCount keys outputs bytes)
    (few : extraCount < 2 ^ 64)
    (fewOutputs : outputs.length < 2 ^ 64)
    (following : List UInt8) :
    minerTxPrefixFields (bytes ++ following) =
      .ok ((4, 1, extraCount, outputs.length, 6), following) := by
  have byte (value : UInt8) (after : List UInt8) :
      MiningHeader.readU8 (value :: after) = .ok (value, after) :=
    takeByte_eq_ok.mpr rfl
  have number {value : Nat} (fits : value < 2 ^ 64) (after : List UInt8) :
      MiningHeader.readVarint (varint value ++ after) = .ok (value, after) :=
    takeVarint_varint fits after
  cases isPrefix with
  | @intro height fields body heightFits isFields spelled =>
      have input (after : List UInt8) :
          MiningHeader.repeatRead skipMinerInput 1
              (0 :: (varint height ++ after)) =
            .ok ((), after) := by
        unfold MiningHeader.repeatRead skipMinerInput
        rw [cursor_bind_eq_ok]
        refine ⟨(), after, ?_, rfl⟩
        rw [cursor_bind_of_ok (byte _ _), if_neg (by decide),
          cursor_bind_of_ok (number heightFits _)]
        rfl
      unfold minerTxPrefixFields prefixHead
      simp only [List.append_assoc, List.cons_append]
      rw [cursor_bind_of_ok (number (by norm_num) _), if_neg (by decide),
        cursor_bind_of_ok (number (by norm_num) _),
        cursor_bind_of_ok (input _), cursor_bind_of_ok (number few _),
        cursor_bind_of_ok (repeatRead_extraFields isFields),
        cursor_bind_of_ok (number fewOutputs _),
        cursor_bind_of_ok (repeatRead_outputs spelled), List.nil_append,
        cursor_bind_of_ok (byte _ _)]
      rfl

end Headers

section Parsers

variable {bytes : List UInt8}

/-- The rest of the bytes is a value that can be read. -/
theorem cursor_get_eq_ok
    {bytes value rest : List UInt8} :
    (get : Cursor Exception (List UInt8)) bytes = .ok (value, rest) ↔
      value = bytes ∧ rest = bytes := by
  constructor
  · rintro ⟨⟩
    exact ⟨rfl, rfl⟩
  · rintro ⟨rfl, rfl⟩
    rfl

/-- The payout parser accepts exactly the prefixes with at most 32 outputs. -/
theorem parseCurrentOutputs_eq_ok
    {outputs : List ParsedPayoutOutput} :
    parseCurrentOutputs bytes = .ok outputs ↔
      ∃ extraCount keys,
        extraCount ≤ 1024 ∧ outputs.length ≤ kCurrentMinerMaxOutputs ∧
          PrefixBytes extraCount keys outputs bytes := by
  have exact := PrefixReaders.minerTx_exact
  have shape :
      currentOutputsFields =
        PrefixReaders.minerTx.headThen
          (.runtimeError "unsupported miner transaction version")
          (.runtimeError "current PoW miner transaction must have txin_gen")
          (.runtimeError "current PoW miner transaction must have txin_gen")
          (.runtimeError "unreasonable miner transaction extra count")
          fun extraCount => do
            skipCurrentExtras extraCount
            let outputCount ← MinerTx.readVarint
            if outputCount > kCurrentMinerMaxOutputs then
              throw (.runtimeError "miner transaction has too many outputs")
            else do
              let outputs ← readPayoutOutputs outputCount
              let hardforkId ← MinerTx.readU8
              let rest ← get
              if hardforkId ≠ 6 ∨ rest ≠ [] then
                throw (.runtimeError
                  "unexpected current miner hardfork/trailing data")
              else
                return outputs :=
    rfl
  have parses :
      parseCurrentOutputs bytes = .ok outputs ↔
        ∃ rest, currentOutputsFields bytes = .ok (outputs, rest) :=
    cursor_run_eq_ok
  rw [parses, shape]
  simp only [exact.headThen_eq_ok, cursor_bind_eq_ok, cursor_guard_eq_ok,
    skipCurrentExtras_eq_ok, readPayoutOutputs_eq_ok, cursor_get_eq_ok,
    cursor_pure_eq_ok]
  constructor
  · rintro ⟨_, height, extraCount, _, heightFits, few, rfl, _, _,
      ⟨keys, fields, isFields, rfl⟩, outputCount, _, counted, bounded, _, _,
      ⟨rfl, consumed, spelled, rfl⟩, hardforkId, _, last, _, _, ⟨rfl, rfl⟩, whole,
      rfl, rfl⟩
    obtain ⟨_, rfl⟩ := exact.readVarint.mp counted
    obtain rfl := exact.readU8.mp last
    simp only [not_or, not_not] at whole
    obtain ⟨rfl, rfl⟩ := whole
    exact ⟨extraCount, keys, few, not_lt.mp bounded,
      .intro heightFits isFields spelled⟩
  · rintro ⟨extraCount, keys, few, bounded, isPrefix⟩
    cases isPrefix with
    | @intro height fields consumed heightFits isFields spelled =>
        exact ⟨[], height, extraCount, _, heightFits, few, rfl, (), _,
          ⟨keys, fields, isFields, rfl⟩, outputs.length, _,
          exact.readVarint.mpr ⟨lt_of_le_of_lt bounded (by decide), rfl⟩,
          not_lt.mpr bounded, outputs, [6], ⟨rfl, consumed, spelled, rfl⟩, 6, [],
          exact.readU8.mpr rfl, [], [], ⟨rfl, rfl⟩, by simp, rfl, rfl⟩

/-- The key parser reads the common head and then the only key. -/
theorem prefixTxPublicKeyFields_eq :
    prefixTxPublicKeyFields =
      PrefixReaders.minerTx.headThen
        (.runtimeError "unsupported miner transaction version")
        (.runtimeError "current PoW miner transaction must have one input")
        (.runtimeError "current PoW miner transaction input is not txin_gen")
        (.runtimeError "miner transaction has unreasonable extra count")
        fun extraCount => do
          let found ← readExtraFields extraCount none
          match found with
          | none =>
              throw (.runtimeError "miner transaction has no tx public key")
          | some key => return key :=
  rfl

/-- The key parser accepts any bytes after the fields with their only key. -/
theorem parsePrefixTxPublicKey_eq_ok
    {key : ZanoCurveKey} :
    parsePrefixTxPublicKey bytes = .ok key ↔
      ∃ height extraCount fields rest,
        height < 2 ^ 64 ∧ extraCount ≤ 1024 ∧
          ExtraFields extraCount [key] fields ∧
          bytes = prefixHead height extraCount (fields ++ rest) := by
  have exact := PrefixReaders.minerTx_exact
  have parses :
      parsePrefixTxPublicKey bytes = .ok key ↔
        ∃ rest, prefixTxPublicKeyFields bytes = .ok (key, rest) :=
    cursor_run_eq_ok
  rw [parses, prefixTxPublicKeyFields_eq]
  simp only [exact.headThen_eq_ok, cursor_bind_eq_ok, readExtraFields_eq,
    exact.extraFields_eq_ok]
  constructor
  · rintro ⟨rest, height, extraCount, _, heightFits, few, rfl, found, _,
      ⟨keys, fields, isFields, rfl, single, chosen⟩, returned⟩
    cases found with
    | none => exact absurd returned cursor_throw_ne_ok
    | some other =>
        obtain ⟨rfl, rfl⟩ := cursor_pure_eq_ok.mp returned
        have only : keys = [other] := by
          cases keys with
          | nil => cases chosen
          | cons first others =>
              cases chosen
              cases others with
              | nil => rfl
              | cons _ _ => simp at single
        subst only
        exact ⟨height, extraCount, fields, _, heightFits, few, isFields, rfl⟩
  · rintro ⟨height, extraCount, fields, rest, heightFits, few, isFields, rfl⟩
    exact ⟨rest, height, extraCount, _, heightFits, few, rfl, some key, rest,
      ⟨[key], fields, isFields, rfl, by simp, rfl⟩, rfl⟩

/-- The parser of the proofs reads the common head, the key and the outputs. -/
theorem proofInputFields_eq :
    proofInputFields =
      PrefixReaders.proofData.headThen
        (.runtimeError "unsupported miner transaction version")
        (.runtimeError "current PoW miner transaction must have txin_gen")
        (.runtimeError "current PoW miner transaction must have txin_gen")
        (.runtimeError "unreasonable miner transaction extra count")
        fun extraCount => do
          let found ← parseCurrentExtras extraCount none
          match found with
          | none =>
              throw (.runtimeError "miner transaction has no public key")
          | some txPublicKey => do
              let outputCount ← ProofData.readVarint
              if outputCount < kCurrentMinerMinOutputs ∨
                  outputCount > kCurrentMinerMaxOutputs then
                throw (.runtimeError "invalid current miner output count")
              else do
                let outputs ← readProofOutputs outputCount
                let hardforkId ← ProofData.readU8
                let rest ← get
                if hardforkId ≠ 6 ∨ rest ≠ [] then
                  throw (.runtimeError
                    "unexpected miner hardfork/trailing prefix data")
                else
                  return {
                    txPublicKey
                    amountCommitments := outputs.map Prod.fst
                    blindedAssetIds := outputs.map Prod.snd } :=
  rfl

/-- The parser of the proofs accepts exactly the prefixes with one key. -/
theorem parseProofInputs_eq_ok
    {inputs : ParsedProofInputs} :
    parseProofInputs bytes = .ok inputs ↔
      ∃ extraCount outputs,
        extraCount ≤ 1024 ∧ kCurrentMinerMinOutputs ≤ outputs.length ∧
          outputs.length ≤ kCurrentMinerMaxOutputs ∧
          PrefixBytes extraCount [inputs.txPublicKey] outputs bytes ∧
          inputs.amountCommitments =
            outputs.map ParsedPayoutOutput.amountCommitment ∧
          inputs.blindedAssetIds =
            outputs.map ParsedPayoutOutput.blindedAssetId := by
  have exact := PrefixReaders.proofData_exact
  have parses :
      parseProofInputs bytes = .ok inputs ↔
        ∃ rest, proofInputFields bytes = .ok (inputs, rest) :=
    cursor_run_eq_ok
  rw [parses, proofInputFields_eq]
  simp only [exact.headThen_eq_ok, cursor_bind_eq_ok, parseCurrentExtras_eq,
    exact.extraFields_eq_ok]
  constructor
  · rintro ⟨rest, height, extraCount, _, heightFits, few, rfl, found, _,
      ⟨keys, fields, isFields, rfl, single, chosen⟩, read⟩
    cases found with
    | none => exact absurd read cursor_throw_ne_ok
    | some key =>
        have only : keys = [key] := by
          cases keys with
          | nil => cases chosen
          | cons first others =>
              cases chosen
              cases others with
              | nil => rfl
              | cons _ _ => simp at single
        subst only
        simp only [cursor_bind_eq_ok, cursor_guard_eq_ok,
          readProofOutputs_eq_ok, cursor_get_eq_ok, cursor_pure_eq_ok] at read
        obtain ⟨outputCount, _, counted, bounded, _, _,
          ⟨outputs, consumed, rfl, spelled, rfl, rfl⟩, hardforkId, _, last, _, _,
          ⟨rfl, rfl⟩, whole, rfl, rfl⟩ := read
        obtain ⟨_, rfl⟩ := exact.readVarint.mp counted
        obtain rfl := exact.readU8.mp last
        simp only [not_or, not_not] at whole
        obtain ⟨rfl, rfl⟩ := whole
        rw [not_or, not_lt, not_lt] at bounded
        exact ⟨extraCount, outputs, few, bounded.1, bounded.2,
          .intro heightFits isFields spelled, by simp [Function.comp_def],
          by simp [Function.comp_def]⟩
  · rintro ⟨extraCount, outputs, few, enough, bounded, isPrefix, amounts, assets⟩
    cases isPrefix with
    | @intro height fields consumed heightFits isFields spelled =>
        refine ⟨[], height, extraCount, _, heightFits, few, rfl,
          some inputs.txPublicKey, _,
          ⟨[inputs.txPublicKey], fields, isFields, rfl, by simp, rfl⟩, ?_⟩
        simp only [cursor_bind_eq_ok, cursor_guard_eq_ok,
          readProofOutputs_eq_ok, cursor_get_eq_ok, cursor_pure_eq_ok]
        refine ⟨outputs.length, _,
          exact.readVarint.mpr ⟨lt_of_le_of_lt bounded (by decide), rfl⟩, ?_, _,
          [6], ⟨outputs, consumed, rfl, spelled, rfl, rfl⟩, 6, [],
          exact.readU8.mpr rfl, [], [], ⟨rfl, rfl⟩, by simp, ?_, rfl⟩
        · rw [not_or, not_lt, not_lt]
          exact ⟨enough, bounded⟩
        · cases inputs
          simp only [ParsedProofInputs.mk.injEq, List.map_map,
            Function.comp_def] at amounts assets ⊢
          exact ⟨trivial, amounts.symm, assets.symm⟩

end Parsers

/--
What the payout policy accepts is one whole prefix for the mining header, what the
proofs are checked for is what the payout policy saw, and nothing else the other
parsers accept escapes the proofs but a transaction with a single output.
-/
theorem minerTxPrefixParsers_agree (backend : Backend) :
    (∀ bytes outputs,
      parseCurrentOutputs bytes = .ok outputs →
      ∀ following, ∃ parsed,
        parseHf6MinerTxPrefix backend (bytes ++ following) = .ok parsed ∧
          parsed.serialized = bytes ∧
          parsed.serializedSize = bytes.length ∧
          parsed.version = 4 ∧
          parsed.vinCount = 1 ∧
          parsed.hardforkId = 6 ∧
          parsed.voutCount = outputs.length) ∧
      (∀ bytes inputs,
        parseProofInputs bytes = .ok inputs →
        ∃ outputs,
          parseCurrentOutputs bytes = .ok outputs ∧
            inputs.amountCommitments =
              outputs.map ParsedPayoutOutput.amountCommitment ∧
            inputs.blindedAssetIds =
              outputs.map ParsedPayoutOutput.blindedAssetId ∧
            parsePrefixTxPublicKey bytes = .ok inputs.txPublicKey) ∧
      ∀ bytes outputs key,
        parseCurrentOutputs bytes = .ok outputs →
        parsePrefixTxPublicKey bytes = .ok key →
        2 ≤ outputs.length →
        ∃ inputs, parseProofInputs bytes = .ok inputs := by
  refine ⟨?_, ?_, ?_⟩
  · intro bytes outputs parsed following
    obtain ⟨extraCount, keys, few, bounded, isPrefix⟩ :=
      parseCurrentOutputs_eq_ok.mp parsed
    have read :=
      minerTxPrefixFields_prefix isPrefix
        (lt_of_le_of_lt few (by norm_num))
        (lt_of_le_of_lt bounded (by decide)) following
    unfold parseHf6MinerTxPrefix
    rw [read]
    refine ⟨_, rfl, ?_, ?_, rfl, rfl, rfl, rfl⟩
    · simp
    · simp
  · intro bytes inputs parsed
    obtain ⟨extraCount, outputs, few, _, bounded, isPrefix, amounts, assets⟩ :=
      parseProofInputs_eq_ok.mp parsed
    refine ⟨outputs,
      parseCurrentOutputs_eq_ok.mpr ⟨extraCount, _, few, bounded, isPrefix⟩,
      amounts, assets, ?_⟩
    cases isPrefix with
    | intro heightFits isFields spelled =>
        exact parsePrefixTxPublicKey_eq_ok.mpr
          ⟨_, extraCount, _, _, heightFits, few, isFields, rfl⟩
  · intro bytes outputs key parsed keyed enough
    obtain ⟨extraCount, keys, few, bounded, isPrefix⟩ :=
      parseCurrentOutputs_eq_ok.mp parsed
    obtain ⟨height, otherCount, otherFields, rest, otherHeightFits, otherFew,
      otherIsFields, same⟩ := parsePrefixTxPublicKey_eq_ok.mp keyed
    cases isPrefix with
    | intro heightFits isFields spelled =>
        obtain ⟨rfl, bodies⟩ :=
          prefixHead_injective heightFits few otherHeightFits otherFew same
        obtain rfl := extraFields_unique isFields otherIsFields bodies
        exact ⟨⟨key, outputs.map ParsedPayoutOutput.amountCommitment,
            outputs.map ParsedPayoutOutput.blindedAssetId⟩,
          parseProofInputs_eq_ok.mpr ⟨extraCount, outputs, few, enough, bounded,
            .intro heightFits otherIsFields spelled, rfl, rfl⟩⟩

/-- A prefix of height 9 with a transaction key and two native outputs. -/
def samplePaidPrefix : List UInt8 :=
  let output (stealth : ZanoCurveKey) : List UInt8 :=
    [63, 0] ++ hashBytes stealth ++ hashBytes 0 ++ hashBytes stealth ++
      hashBytes kNativeCoinAssetId1Div8 ++ List.replicate 17 0
  [4, 1, 0, 9, 1, 22] ++ hashBytes 5 ++ [2] ++ output 7 ++ output 101 ++ [6]

/-- All four parsers read the sample prefix in front of other bytes. -/
theorem minerTxPrefixParsers_agree_sample :
    ∃ outputs parsed inputs,
      parseCurrentOutputs samplePaidPrefix = .ok outputs ∧
        parseHf6MinerTxPrefix spellingBackend (samplePaidPrefix ++ [1, 2, 3]) =
          .ok parsed ∧
        parsed.serialized = samplePaidPrefix ∧ parsed.voutCount = 2 ∧
        parseProofInputs samplePaidPrefix = .ok inputs ∧
        parsePrefixTxPublicKey samplePaidPrefix = .ok 5 ∧
        inputs.amountCommitments =
          outputs.map ParsedPayoutOutput.amountCommitment := by
  obtain ⟨header, proofs, escapes⟩ :=
    minerTxPrefixParsers_agree spellingBackend
  have reads :
      (parseCurrentOutputs samplePaidPrefix).toOption.map List.length =
        some 2 := by
    decide +kernel
  have keyed : parsePrefixTxPublicKey samplePaidPrefix = .ok 5 := by
    decide +kernel
  cases read : parseCurrentOutputs samplePaidPrefix with
  | error thrown =>
      rw [read] at reads
      cases reads
  | ok outputs =>
      rw [read] at reads
      have two : outputs.length = 2 := Option.some.inj reads
      obtain ⟨parsed, headerRead, serialized, _, _, _, _, count⟩ :=
        header _ _ read [1, 2, 3]
      obtain ⟨inputs, proofRead⟩ := escapes _ _ _ read keyed two.ge
      obtain ⟨again, readAgain, amounts, _⟩ := proofs _ _ proofRead
      rw [read] at readAgain
      cases readAgain
      exact ⟨outputs, parsed, inputs, rfl, headerRead, serialized,
        count.trans two, proofRead, keyed, amounts⟩

end ZanoP2pool
