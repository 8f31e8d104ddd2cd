import ZanoP2pool.Share

namespace ZanoP2pool

open Foundation

/-!
# Local validation of one proof-of-work candidate

A candidate is hashed with ProgPoWZ and the final hash is compared with the
share difficulty and with the network difficulty.  Difficulties cross this
boundary as decimal text, exactly as in the source.
-/

/-- Outcome class of a candidate hash. -/
inductive CandidateClassification where
  | invalid
  | share
  | block
  deriving Repr, DecidableEq

/-- Locally established validation state of one candidate. -/
structure CandidateValidation where
  pow : ProgPowZResult
  meetsShareDifficulty : Bool
  meetsNetworkDifficulty : Bool
  classification : CandidateClassification
  deriving Repr, DecidableEq

/-- One step of the decimal reader, refusing values above 128 bits. -/
def parseDifficultyDigit
    (value : Nat)
    (digit : Char) :
    Except Exception Nat :=
  if digit < '0' ∨ digit > '9' then
    .error (.invalidArgument "difficulty must contain decimal digits only")
  else
    let next := value * 10 + (digit.toNat - '0'.toNat)
    if next ≥ 2 ^ 128 then
      .error (.outOfRange "difficulty exceeds Zano uint128 range")
    else
      .ok next

/-- Parse a positive decimal difficulty of at most 128 bits. -/
def parseDifficulty (text : List Char) : Except Exception Nat := do
  if text.isEmpty then
    throw (.invalidArgument "difficulty is empty")
  let value ← text.foldlM parseDifficultyDigit 0
  if value = 0 then
    throw (.invalidArgument "difficulty must be greater than zero")
  return value

/-- The consensus target `floor((2^256 - 1) / difficulty)`. -/
def difficultyToTarget (text : List Char) : Except Exception Nat := do
  let difficulty ← parseDifficulty text
  return (2 ^ 256 - 1) / difficulty

/-- Compare a hash, read as a big-endian number, with a difficulty target. -/
def hashMeetsDifficulty
    (hash : Hash256)
    (text : List Char) :
    Except Exception Bool := do
  let target ← difficultyToTarget text
  return hash.toNat ≤ target

/-- Hash a candidate locally and classify it against both difficulties. -/
def validateCandidate
    (backend : Backend)
    (height : UInt64)
    (miningHeaderHash : Hash256)
    (nonce : UInt64)
    (shareDifficulty networkDifficulty : List Char)
    (mode : ProgPowZContextMode) :
    Except Exception CandidateValidation := do
  let pow ← backend.progpowzHash height miningHeaderHash nonce mode
  let meetsShareDifficulty ←
    hashMeetsDifficulty pow.finalHash shareDifficulty
  let meetsNetworkDifficulty ←
    hashMeetsDifficulty pow.finalHash networkDifficulty
  let classification :=
    if meetsNetworkDifficulty then .block
    else if meetsShareDifficulty then .share
    else .invalid
  return {
    pow
    meetsShareDifficulty
    meetsNetworkDifficulty
    classification
  }

/--
Cached validation state is consistent when it meets the share difficulty and
its class is `block` exactly when it meets the network difficulty.
-/
def replayValidationConsistent (validation : CandidateValidation) : Bool :=
  if !validation.meetsShareDifficulty then
    false
  else
    match validation.classification with
    | .share => !validation.meetsNetworkDifficulty
    | .block => validation.meetsNetworkDifficulty
    | .invalid => false

/-- Field-by-field comparison of two cached validation states. -/
def replayValidationEqual (left right : CandidateValidation) : Bool :=
  left.pow.finalHash == right.pow.finalHash &&
    left.pow.mixHash == right.pow.mixHash &&
    left.meetsShareDifficulty == right.meetsShareDifficulty &&
    left.meetsNetworkDifficulty == right.meetsNetworkDifficulty &&
    left.classification == right.classification

/-- The compared fields are all the fields, so the comparison is equality. -/
@[simp] theorem replayValidationEqual_iff
    {left right : CandidateValidation} :
    replayValidationEqual left right = true ↔ left = right := by
  rcases left with ⟨⟨leftFinal, leftMix⟩, _, _, _⟩
  rcases right with ⟨⟨rightFinal, rightMix⟩, _, _, _⟩
  simp [replayValidationEqual, and_assoc]

/--
A candidate that meets its share difficulty and is not classified invalid has
consistent validation state.
-/
theorem validateCandidate_consistent
    {backend : Backend}
    {height : UInt64}
    {miningHeaderHash : Hash256}
    {nonce : UInt64}
    {shareDifficulty networkDifficulty : List Char}
    {mode : ProgPowZContextMode}
    {validation : CandidateValidation}
    (validated :
      validateCandidate backend height miningHeaderHash nonce
          shareDifficulty networkDifficulty mode =
        .ok validation)
    (meetsShare : validation.meetsShareDifficulty = true) :
    replayValidationConsistent validation = true := by
  unfold validateCandidate at validated
  cases hashed : backend.progpowzHash height miningHeaderHash nonce mode with
  | error thrown =>
      simp [hashed, bind, Except.bind] at validated
  | ok pow =>
      cases share : hashMeetsDifficulty pow.finalHash shareDifficulty with
      | error thrown =>
          simp [hashed, share, bind, Except.bind] at validated
      | ok meetsShareDifficulty =>
          cases network :
              hashMeetsDifficulty pow.finalHash networkDifficulty with
          | error thrown =>
              simp [hashed, share, network, bind, Except.bind] at validated
          | ok meetsNetworkDifficulty =>
              simp only [hashed, share, network, bind, Except.bind, pure,
                Except.pure, Except.ok.injEq] at validated
              subst validation
              simp only at meetsShare
              subst meetsShareDifficulty
              cases meetsNetworkDifficulty <;> rfl

end ZanoP2pool
