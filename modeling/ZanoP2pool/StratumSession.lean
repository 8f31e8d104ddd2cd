import ZanoP2pool.PowTarget
import ZanoP2pool.StratumProtocol
import ZanoP2pool.ZanoAddress

namespace ZanoP2pool

open Foundation

/-!
# Stratum sessions

The registry of miner sessions and the work issued to them.  A session remembers
the work it was last given and the work before that; the registry remembers the
template all work is currently derived from.
-/

structure StratumLogin where
  username : List UInt8
  password : List UInt8
  worker : List UInt8
  requestedDifficulty : Option UInt64
  deriving Repr, DecidableEq

/-- The difficulty that follows the first `-` of a user name, and the name before. -/
def parseRequestedDifficulty
    (username : List UInt8) :
    Except Exception (List UInt8 × Option UInt64) :=
  if 0x2d ∉ username then
    return (username, none)
  else
    let name := username.takeWhile (· ≠ 0x2d)
    let suffix := (username.dropWhile (· ≠ 0x2d)).drop 1
    if suffix.isEmpty then
      throw (.runtimeError "empty requested Stratum difficulty")
    else
      let result := fromChars 10 suffix
      match result.value with
      | .error _ =>
          throw (.runtimeError "invalid requested Stratum difficulty")
      | .ok value =>
          if ¬ result.unread.isEmpty then
            throw (.runtimeError "invalid requested Stratum difficulty")
          else if name.isEmpty then
            throw (.runtimeError "empty Stratum username")
          else
            return (name, if value = 0 then none else some value)

def parseStratumLogin
    (request : StratumRequest) :
    Except Exception StratumLogin := do
  if stratumMethod request ≠ .submitLogin then
    throw (.runtimeError "request is not eth_submitLogin")
  else
    match request.params with
    | [username] =>
        let (username, requestedDifficulty) ← parseRequestedDifficulty username
        return { username, password := [], worker := request.worker, requestedDifficulty }
    | [username, password] =>
        let (username, requestedDifficulty) ← parseRequestedDifficulty username
        return { username, password, worker := request.worker, requestedDifficulty }
    | _ =>
        throw (.runtimeError
          "eth_submitLogin expects username and optional password")

structure StratumSessionConfig where
  defaultShareDifficulty : UInt64 := 100000000
  minimumShareDifficulty : UInt64 := 1
  maximumShareDifficulty : UInt64 := 100000000000
  deriving Repr, DecidableEq

structure StratumShareParentBinding where
  parentId : ShareId
  shareHeight : UInt64
  deriving Repr, DecidableEq

structure StratumTemplate where
  version : UInt64
  headerHash : Hash256
  seedHash : Hash256
  height : UInt64
  networkDifficulty : Difficulty128
  parentBinding : Option StratumShareParentBinding
  deriving Repr, DecidableEq

structure StratumIssuedWork where
  jobVersion : UInt64
  sessionId : UInt64
  shareDifficulty : Difficulty128
  wireWork : StratumWork
  trustedContext : ShareWorkContext
  parentBinding : Option StratumShareParentBinding
  deriving Repr, DecidableEq

inductive StratumWorkMatch where
  | current
  | stale
  | unknown
  deriving Repr, DecidableEq

structure StratumSession where
  id : UInt64
  loggedIn : Bool := false
  username : List UInt8 := []
  worker : List UInt8 := []
  payout : Option PayoutPublicKeys := none
  configuredShareDifficulty : UInt64
  currentWork : Option StratumIssuedWork := none
  previousWork : Option StratumIssuedWork := none
  deriving Repr, DecidableEq

structure StratumSessionRegistry where
  config : StratumSessionConfig := {}
  nextSessionId : UInt64 := 1
  nextTemplateVersion : UInt64 := 1
  sessions : Std.ExtTreeMap UInt64 StratumSession := ∅
  currentTemplate : Option StratumTemplate := none

abbrev SessionsM := EStateM Exception StratumSessionRegistry

/-- The requested difficulty, or the default one, moved into the allowed range. -/
def clampRequestedDifficulty
    (config : StratumSessionConfig)
    (requested : Option UInt64) :
    UInt64 :=
  let chosen :=
    match requested with
    | none => config.defaultShareDifficulty
    | some value =>
        if value = 0 then config.defaultShareDifficulty else value
  if chosen < config.minimumShareDifficulty then
    config.minimumShareDifficulty
  else if config.maximumShareDifficulty < chosen then
    config.maximumShareDifficulty
  else
    chosen

/-- Throw unless exactly the root binding has height zero. -/
def requireBinding
    (binding : Option StratumShareParentBinding)
    (rootMessage otherMessage : String) :
    Except Exception Unit :=
  match binding with
  | none => return ()
  | some binding =>
      if binding.parentId = 0 ∧ binding.shareHeight ≠ 0 then
        throw (.runtimeError rootMessage)
      else if binding.parentId ≠ 0 ∧ binding.shareHeight = 0 then
        throw (.runtimeError otherMessage)
      else
        return ()

/-- The target of a difficulty, as a number of 32 bytes. -/
def wireTarget
    (difficulty : Difficulty128) :
    Except Exception DifficultyTarget := do
  let bytes ← PowTarget.difficultyToTarget
    (PowTarget.difficulty128ToDecimal difficulty)
  return { bigEndian := BitVec.ofNat 256 (ofBigEndian bytes) }

namespace StratumSessionRegistry

def create
    (config : StratumSessionConfig) :
    Except Exception StratumSessionRegistry :=
  if config.minimumShareDifficulty = 0 then
    throw (.runtimeError "Stratum minimum share difficulty must be nonzero")
  else if config.maximumShareDifficulty < config.minimumShareDifficulty then
    throw (.runtimeError "Stratum maximum share difficulty is below minimum")
  else if config.defaultShareDifficulty < config.minimumShareDifficulty ∨
      config.defaultShareDifficulty > config.maximumShareDifficulty then
    throw (.runtimeError
      "Stratum default share difficulty is outside configured range")
  else
    return { config }

def findSession
    (registry : StratumSessionRegistry)
    (sessionId : UInt64) :
    Option StratumSession :=
  registry.sessions[sessionId]?

def requireSession (sessionId : UInt64) : SessionsM StratumSession := do
  let registry ← get
  match registry.findSession sessionId with
  | none => throw (.runtimeError "unknown Stratum session")
  | some session => return session

theorem requireSession_found
    {registry : StratumSessionRegistry}
    {sessionId : UInt64}
    {session : StratumSession}
    (found : registry.findSession sessionId = some session) :
    requireSession sessionId registry = .ok session registry := by
  unfold requireSession
  rw [get_bind_apply, found]
  rfl

theorem requireSession_missing
    {registry : StratumSessionRegistry}
    {sessionId : UInt64}
    (missing : registry.findSession sessionId = none) :
    requireSession sessionId registry =
      .error (.runtimeError "unknown Stratum session") registry := by
  unfold requireSession
  rw [get_bind_apply, missing]
  rfl

def storeSession (sessionId : UInt64) (session : StratumSession) : SessionsM Unit :=
  modify fun registry =>
    { registry with sessions := registry.sessions.insert sessionId session }

def createSession : SessionsM UInt64 := do
  let registry ← get
  if registry.nextSessionId = 0 then
    throw (.runtimeError "Stratum session id space exhausted")
  else
    let id := registry.nextSessionId
    let session : StratumSession :=
      { id, configuredShareDifficulty := registry.config.defaultShareDifficulty }
    set { registry with
      nextSessionId := id + 1
      sessions := registry.sessions.insertIfNew id session }
    return id

def removeSession (sessionId : UInt64) : SessionsM Unit :=
  modify fun registry =>
    { registry with sessions := registry.sessions.erase sessionId }

/-- The session after a login, whose work is forgotten. -/
def loggedInSession
    (backend : Backend)
    (config : StratumSessionConfig)
    (session : StratumSession)
    (login : StratumLogin) :
    StratumSession :=
  let decoded := decodeZanoStandardAddress backend login.username
  { session with
    username := login.username
    worker :=
      if login.worker.isEmpty then
        (Nat.toDigits 10 session.id.toNat).map Char.toUInt8
      else
        login.worker
    payout := if decoded.status = .valid then some decoded.payout else none
    configuredShareDifficulty :=
      clampRequestedDifficulty config login.requestedDifficulty
    loggedIn := true
    currentWork := none
    previousWork := none }

def login
    (backend : Backend)
    (sessionId : UInt64)
    (loginRequest : StratumLogin) :
    SessionsM Unit := do
  let session ← requireSession sessionId
  if loginRequest.username.isEmpty then
    throw (.runtimeError "Stratum login username must not be empty")
  else
    let registry ← get
    storeSession sessionId
      (loggedInSession backend registry.config session loginRequest)

/-- The version of a template: the current one when nothing has changed. -/
def publishTemplate
    (headerHash seedHash : Hash256)
    (height : UInt64)
    (networkDifficulty : Difficulty128)
    (parentBinding : Option StratumShareParentBinding) :
    SessionsM UInt64 := do
  if difficulty128IsZero networkDifficulty then
    throw (.runtimeError "Stratum template network difficulty must be nonzero")
  else
    orThrow (requireBinding parentBinding
      "root Stratum template binding must use share height zero"
      "non-root Stratum template binding must use nonzero share height")
    let registry ← get
    let unchanged := registry.currentTemplate.filter fun current =>
      current.headerHash = headerHash ∧ current.seedHash = seedHash ∧
        current.height = height ∧
        current.networkDifficulty = networkDifficulty ∧
        current.parentBinding = parentBinding
    match unchanged with
    | some current => return current.version
    | none =>
        if registry.nextTemplateVersion = 0 then
          throw (.runtimeError "Stratum template version space exhausted")
        else
          let version := registry.nextTemplateVersion
          set { registry with
            nextTemplateVersion := version + 1
            currentTemplate := some
              { version, headerHash, seedHash, height, networkDifficulty, parentBinding } }
          return version

def effectiveShareDifficulty
    (session : StratumSession)
    (workTemplate : StratumTemplate) :
    Except Exception Difficulty128 := do
  let configured ← difficulty128FromDecimal
    (Nat.toDigits 10 session.configuredShareDifficulty.toNat)
  return if workTemplate.networkDifficulty < configured then
    workTemplate.networkDifficulty
  else
    configured

/-- The parent of a template binds every work derived from it. -/
def workBinding
    (workTemplate : StratumTemplate)
    (parentBinding : Option StratumShareParentBinding) :
    Except Exception (Option StratumShareParentBinding) := do
  let binding ←
    match workTemplate.parentBinding with
    | none => pure parentBinding
    | some bound =>
        if parentBinding.isSome ∧ parentBinding ≠ some bound then
          throw (.runtimeError
            "Stratum work parent does not match published template")
        else
          pure (some bound)
  requireBinding binding
    "root Stratum parent binding must use share height zero"
    "non-root Stratum parent binding must use nonzero share height"
  return binding

def workDifficulty
    (session : StratumSession)
    (workTemplate : StratumTemplate)
    (consensusShareDifficulty : Option Difficulty128) :
    Except Exception Difficulty128 :=
  match consensusShareDifficulty with
  | none => effectiveShareDifficulty session workTemplate
  | some difficulty =>
      if difficulty128IsZero difficulty then
        throw (.runtimeError
          "consensus Stratum share difficulty must be nonzero")
      else if workTemplate.networkDifficulty < difficulty then
        throw (.runtimeError
          "consensus Stratum share difficulty exceeds network difficulty")
      else
        return difficulty

/-- The work derived from a template. -/
def derivedWork
    (workTemplate : StratumTemplate)
    (sessionId : UInt64)
    (shareDifficulty : Difficulty128)
    (shareTarget : DifficultyTarget)
    (parentBinding : Option StratumShareParentBinding) :
    StratumIssuedWork where
  jobVersion := workTemplate.version
  sessionId := sessionId
  shareDifficulty := shareDifficulty
  wireWork :=
    { headerHash := workTemplate.headerHash
      seedHash := workTemplate.seedHash
      shareTarget := shareTarget
      height := workTemplate.height }
  trustedContext :=
    { zanoHeight := workTemplate.height
      miningHeaderHash := workTemplate.headerHash
      networkDifficulty := workTemplate.networkDifficulty }
  parentBinding := parentBinding

def issueWork
    (sessionId : UInt64)
    (consensusShareDifficulty : Option Difficulty128)
    (parentBinding : Option StratumShareParentBinding) :
    SessionsM StratumIssuedWork := do
  let session ← requireSession sessionId
  if ¬ session.loggedIn then
    throw (.runtimeError "Stratum session is not logged in")
  else
    let registry ← get
    match registry.currentTemplate with
    | none => throw (.runtimeError "no Stratum template is available")
    | some workTemplate =>
        let binding ← orThrow (workBinding workTemplate parentBinding)
        let shareDifficulty ← orThrow
          (workDifficulty session workTemplate consensusShareDifficulty)
        let unchanged := session.currentWork.filter fun current =>
          current.jobVersion = workTemplate.version ∧
            current.shareDifficulty = shareDifficulty ∧
            current.parentBinding = binding
        match unchanged with
        | some current => return current
        | none =>
            let shareTarget ← orThrow (wireTarget shareDifficulty)
            let issued :=
              derivedWork workTemplate session.id shareDifficulty shareTarget binding
            storeSession sessionId
              { session with
                previousWork := session.currentWork
                currentWork := some issued }
            return issued

def matchSubmission
    (sessionId : UInt64)
    (headerHash : Hash256) :
    SessionsM StratumWorkMatch := do
  let session ← requireSession sessionId
  match session.currentWork with
  | none => return .unknown
  | some current =>
      if current.wireWork.headerHash = headerHash then
        return .current
      else if session.previousWork.any fun previous =>
          decide (previous.wireWork.headerHash = headerHash) then
        return .stale
      else
        return .unknown

end StratumSessionRegistry

end ZanoP2pool
