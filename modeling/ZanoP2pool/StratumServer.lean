import ZanoP2pool.Foundation.Zoom
import ZanoP2pool.ShareChainReachable
import ZanoP2pool.StratumSession

namespace ZanoP2pool

open Foundation

/-!
# The Stratum server

Submissions of miners are matched with the work of their session and offered to
the share chain.  The server issues work below the parent its template was built
for, with the difficulty the chain expects there, and answers the requests of
miners.  Its state is changed under one lock, so a run is a sequence of calls,
between which peers may change the chain.
-/

def kStratumErrorDefault : Int64 := -32000

def kStratumErrorMethodNotFound : Int64 := -32601

inductive StratumSubmissionDisposition where
  | acceptedShare
  | blockCandidate
  | stale
  | duplicate
  | unknownWork
  | rejected
  deriving Repr, DecidableEq

structure StratumSubmissionResult where
  disposition : StratumSubmissionDisposition := .rejected
  rejectReason : ShareRejectReason := .none
  shareId : ShareId := 0
  jobVersion : UInt64 := 0
  deriving Repr, DecidableEq

/-- The bytes `ZP2M\0` that separate user names from other hashed data. -/
def kSessionMinerDomain : List UInt8 := [0x5a, 0x50, 0x32, 0x4d, 0x00]

def minerIdForSession (backend : Backend) (session : StratumSession) : MinerId :=
  match session.payout with
  | some payout => minerIdFromPayout backend payout
  | none => backend.cnFastHash (kSessionMinerDomain ++ session.username)

/-- The parent of a submitted share; work without a parent extends the tip. -/
def submittedParent
    (chain : ShareChain)
    (issued : StratumIssuedWork) :
    ShareId × UInt64 :=
  match issued.parentBinding with
  | some binding => (binding.parentId, binding.shareHeight)
  | none =>
      match chain.bestTip with
      | some tip => (tip.id, tip.share.shareHeight + 1)
      | none => (0, 0)

/-- The share a submission stands for. -/
def submittedShare
    (backend : Backend)
    (chain : ShareChain)
    (session : StratumSession)
    (issued : StratumIssuedWork)
    (nonce now : UInt64) :
    Share where
  version := if session.payout.isSome then kShareVersion2 else kShareVersion1
  parentId := (submittedParent chain issued).1
  shareHeight := (submittedParent chain issued).2
  timestamp := now
  zanoHeight := issued.trustedContext.zanoHeight
  miningHeaderHash := issued.trustedContext.miningHeaderHash
  nonce := nonce
  shareDifficulty := issued.shareDifficulty
  networkDifficulty := issued.trustedContext.networkDifficulty
  minerId := minerIdForSession backend session
  payout := session.payout

instance instLawfulBEqJobNonce : LawfulBEq (UInt64 × UInt64) :=
  inferInstance

/-- A server; `sharedChain` tells whether a full node supplied the chain. -/
structure StratumServer where
  sharedChain : Bool
  sessions : StratumSessionRegistry := {}
  /-- The job versions and nonces each session has submitted. -/
  submittedNonces : Std.ExtTreeMap UInt64 (List (UInt64 × UInt64)) := ∅
  chain : ShareChain

abbrev StratumM := EStateM Exception StratumServer

/-- What the server sends to a miner; a notification answers no request. -/
inductive StratumReply where
  | success (id : StratumId)
  | error (id : StratumId) (code : Int64) (message : String)
  | work (id : StratumId) (work : StratumWork)
  | notification (work : StratumWork)
  deriving Repr, DecidableEq

def Exception.what : Exception → String
  | .invalidArgument what => what
  | .logicError what => what
  | .runtimeError what => what
  | .outOfRange what => what
  | .overflowError what => what

namespace StratumServer

/-- Run a computation on the sessions. -/
def onSessions {α : Type} (action : SessionsM α) : StratumM α :=
  zoom StratumServer.sessions
    (fun sessions server => { server with sessions }) action

/-- Run a computation on the share chain. -/
def onShares {α : Type} (action : ChainM α) : StratumM α :=
  zoom StratumServer.chain (fun chain server => { server with chain }) action

def seenNonces
    (server : StratumServer)
    (sessionId : UInt64) :
    List (UInt64 × UInt64) :=
  server.submittedNonces[sessionId]?.getD []

/-- Remember a nonce of a session before it is offered to the chain. -/
def recordNonce
    (server : StratumServer)
    (sessionId : UInt64)
    (key : UInt64 × UInt64) :
    StratumServer :=
  { server with
    submittedNonces := server.submittedNonces.insert sessionId
      (key :: server.seenNonces sessionId) }

/-- The answer to a submission that was offered to the chain. -/
def submissionResult
    (chain : ShareChain)
    (result : AddShareResult)
    (id : ShareId)
    (jobVersion : UInt64) :
    StratumSubmissionResult :=
  if result.disposition ≠ .connected ∧ result.disposition ≠ .orphan then
    { disposition := .rejected
      rejectReason := result.rejectReason
      shareId := id
      jobVersion }
  else
    match (chain.find id).bind ConnectedShare.powValidation with
    | none => { disposition := .rejected, shareId := id, jobVersion }
    | some validation =>
        if validation.classification = .block then
          { disposition := .blockCandidate, shareId := id, jobVersion }
        else
          { disposition := .acceptedShare, shareId := id, jobVersion }

/-- Offer a submission of the current work to the chain. -/
def offerSubmission
    (backend : Backend)
    (session : StratumSession)
    (issued : StratumIssuedWork)
    (nonce now : UInt64)
    (mode : ProgPowZContextMode) :
    StratumM StratumSubmissionResult := do
  let server ← get
  let share := submittedShare backend server.chain session issued nonce now
  let id ← orThrow (shareId backend share)
  let result ← onShares
    (ShareChain.submitShare backend share issued.trustedContext now mode)
  let server ← get
  return submissionResult server.chain result id issued.jobVersion

def submit
    (backend : Backend)
    (sessionId : UInt64)
    (submission : StratumSubmission)
    (now : UInt64)
    (mode : ProgPowZContextMode) :
    StratumM StratumSubmissionResult := do
  let server ← get
  match server.sessions.findSession sessionId with
  | none => return { disposition := .unknownWork }
  | some session =>
      match session.currentWork with
      | none => return { disposition := .unknownWork }
      | some issued =>
          if ¬ session.loggedIn then
            return { disposition := .unknownWork }
          else
            match ← onSessions (StratumSessionRegistry.matchSubmission
                sessionId submission.headerHash) with
            | .stale =>
                return {
                  disposition := .stale
                  jobVersion := (session.previousWork.map
                    StratumIssuedWork.jobVersion).getD 0 }
            | .unknown => return { disposition := .unknownWork }
            | .current =>
                let key := (issued.jobVersion, submission.nonce)
                if key ∈ server.seenNonces sessionId then
                  return {
                    disposition := .duplicate
                    jobVersion := issued.jobVersion }
                else
                  set (server.recordNonce sessionId key)
                  offerSubmission backend session issued submission.nonce now
                    mode

/-- Throw unless the parent of a template can still be built upon. -/
def requireParent
    (chain : ShareChain)
    (binding : StratumShareParentBinding) :
    Except Exception Unit :=
  if binding.parentId = 0 then
    if binding.shareHeight ≠ 0 then
      throw (.runtimeError
        "root Stratum template binding has invalid share height")
    else
      return ()
  else
    match chain.find binding.parentId with
    | none =>
        throw (.runtimeError
          "published Stratum template parent is no longer connected")
    | some parent =>
        if parent.share.shareHeight = kUInt64Max ∨
            binding.shareHeight ≠ parent.share.shareHeight + 1 then
          throw (.runtimeError
            "published Stratum template parent height is inconsistent")
        else if chain.enforcesSidechainDifficulty ∧
            ¬ parent.validatedAncestry then
          throw (.runtimeError
            "published Stratum template parent lost validated ancestry")
        else
          return ()

/-- The difficulty the chain prescribes below a parent, if it prescribes one. -/
def consensusDifficulty
    (chain : ShareChain)
    (parentId : ShareId)
    (networkDifficulty : Difficulty128) :
    Except Exception (Option Difficulty128) :=
  if chain.enforcesSidechainDifficulty then do
    let difficulty ← chain.expectedChildShareDifficulty parentId networkDifficulty
    return some difficulty
  else
    return none

def issueWork (sessionId : UInt64) : StratumM StratumIssuedWork := do
  let server ← get
  match server.sessions.currentTemplate with
  | none => onSessions (StratumSessionRegistry.issueWork sessionId none none)
  | some workTemplate =>
      if ¬ server.sharedChain then
        onSessions (StratumSessionRegistry.issueWork sessionId none none)
      else
        match workTemplate.parentBinding with
        | none =>
            throw (.runtimeError
              "full-node Stratum template has no sidechain parent binding")
        | some binding =>
            orThrow (requireParent server.chain binding)
            let difficulty ← orThrow (consensusDifficulty server.chain
              binding.parentId workTemplate.networkDifficulty)
            onSessions (StratumSessionRegistry.issueWork sessionId difficulty
              (some binding))

def submissionErrorMessage (result : StratumSubmissionResult) : String :=
  match result.disposition with
  | .stale => "stale work"
  | .duplicate => "duplicate work"
  | .unknownWork => "unknown work"
  | .rejected =>
      if result.rejectReason ≠ .none then
        shareRejectReasonName result.rejectReason
      else
        "share rejected"
  | .acceptedShare => "share rejected"
  | .blockCandidate => "share rejected"

/-- An accepted share as it is handed on for gossip and storage. -/
structure AcceptedShare where
  share : Share
  blockCandidate : Bool
  deriving Repr, DecidableEq

/-- The accepted share of a result, read back from the chain. -/
def acceptedShare
    (chain : ShareChain)
    (result : StratumSubmissionResult) :
    Option AcceptedShare :=
  (chain.find result.shareId).map fun connected =>
    { share := connected.share
      blockCandidate := decide (result.disposition = .blockCandidate) }

/-- The part of a request that may throw. -/
def answerRequest
    (backend : Backend)
    (sessionId : UInt64)
    (request : StratumRequest)
    (now : UInt64) :
    StratumM (List StratumReply × Option AcceptedShare) := do
  match stratumMethod request with
  | .submitLogin =>
      let login ← orThrow (parseStratumLogin request)
      onSessions (StratumSessionRegistry.login backend sessionId login)
      let work ← issueWork sessionId
      return ([.success request.id, .notification work.wireWork], none)
  | .getWork =>
      let work ← issueWork sessionId
      return ([.work request.id work.wireWork], none)
  | .submitHashrate =>
      let server ← get
      if (server.sessions.findSession sessionId).any StratumSession.loggedIn then
        return ([.success request.id], none)
      else
        return ([.error request.id kStratumErrorDefault
          "session is not logged in"], none)
  | .submitWork =>
      let submission ← orThrow (parseStratumSubmission request)
      let result ← submit backend sessionId submission now .light
      if result.disposition = .acceptedShare ∨
          result.disposition = .blockCandidate then
        let server ← get
        return ([.success request.id], acceptedShare server.chain result)
      else
        return ([.error request.id kStratumErrorDefault
          (submissionErrorMessage result)], none)
  | .unknown =>
      return ([.error request.id kStratumErrorMethodNotFound "unknown method"],
        none)

/-- Answer a request; what it throws becomes an error reply. -/
def handleRequest
    (backend : Backend)
    (sessionId : UInt64)
    (request : StratumRequest)
    (now : UInt64)
    (server : StratumServer) :
    (List StratumReply × Option AcceptedShare) × StratumServer :=
  match answerRequest backend sessionId request now server with
  | .ok answer next => (answer, next)
  | .error thrown next =>
      (([.error request.id kStratumErrorDefault thrown.what], none), next)

end StratumServer

/-- A call that changes a server or the chain it shares. -/
inductive StratumOp where
  | createSession
  | removeSession (sessionId : UInt64)
  | login (sessionId : UInt64) (loginRequest : StratumLogin)
  | publishTemplate
      (headerHash seedHash : Hash256)
      (height : UInt64)
      (networkDifficulty : Difficulty128)
      (parentBinding : Option StratumShareParentBinding)
  | issueWork (sessionId : UInt64)
  | submit
      (sessionId : UInt64)
      (submission : StratumSubmission)
      (now : UInt64)
      (mode : ProgPowZContextMode)
  | chain (op : ChainOp)

namespace StratumOp

open StratumServer

def run (backend : Backend) : StratumOp → StratumM Unit
  | createSession => do
      let _ ← onSessions StratumSessionRegistry.createSession
  | removeSession sessionId =>
      onSessions (StratumSessionRegistry.removeSession sessionId)
  | login sessionId loginRequest =>
      onSessions (StratumSessionRegistry.login backend sessionId loginRequest)
  | publishTemplate headerHash seedHash height networkDifficulty parentBinding => do
      let _ ← onSessions (StratumSessionRegistry.publishTemplate headerHash
        seedHash height networkDifficulty parentBinding)
  | issueWork sessionId => do
      let _ ← StratumServer.issueWork sessionId
  | submit sessionId submission now mode => do
      let _ ← StratumServer.submit backend sessionId submission now mode
  | chain op => onShares (op.run backend)

/-- The server after a call; a call that throws keeps what it changed. -/
def attempt
    (backend : Backend)
    (op : StratumOp)
    (server : StratumServer) :
    StratumServer :=
  finalState (op.run backend server)

end StratumOp

namespace StratumOp

open StratumServer

variable {backend : Backend} {server : StratumServer}

/-- Dropping the result of a call keeps its final state. -/
theorem finalState_ignored
    {α : Type}
    (action : StratumM α) :
    finalState ((do let _ ← action : StratumM Unit) server) =
      finalState (action server) := by
  simp only [bind_apply]
  cases action server <;> rfl

theorem attempt_createSession :
    createSession.attempt backend server =
      { server with
        sessions :=
          finalState (StratumSessionRegistry.createSession server.sessions) } := by
  unfold attempt run onSessions
  rw [finalState_ignored, finalState_zoom]

theorem attempt_removeSession (sessionId : UInt64) :
    (removeSession sessionId).attempt backend server =
      { server with
        sessions :=
          { server.sessions with
            sessions := server.sessions.sessions.erase sessionId } } :=
  rfl

theorem attempt_login (sessionId : UInt64) (loginRequest : StratumLogin) :
    (login sessionId loginRequest).attempt backend server =
      { server with
        sessions :=
          finalState (StratumSessionRegistry.login backend sessionId loginRequest
            server.sessions) } := by
  unfold attempt run onSessions
  exact finalState_zoom _ _ _ _

theorem attempt_publishTemplate
    (headerHash seedHash : Hash256)
    (height : UInt64)
    (networkDifficulty : Difficulty128)
    (parentBinding : Option StratumShareParentBinding) :
    (publishTemplate headerHash seedHash height networkDifficulty
        parentBinding).attempt backend server =
      { server with
        sessions :=
          finalState (StratumSessionRegistry.publishTemplate headerHash seedHash
            height networkDifficulty parentBinding server.sessions) } := by
  unfold attempt run onSessions
  rw [finalState_ignored, finalState_zoom]

theorem attempt_issueWork (sessionId : UInt64) :
    (issueWork sessionId).attempt backend server =
      finalState (StratumServer.issueWork sessionId server) := by
  exact finalState_ignored _

theorem attempt_submit
    (sessionId : UInt64)
    (submission : StratumSubmission)
    (now : UInt64)
    (mode : ProgPowZContextMode) :
    (submit sessionId submission now mode).attempt backend server =
      finalState
        (StratumServer.submit backend sessionId submission now mode server) := by
  exact finalState_ignored _

theorem attempt_chain (op : ChainOp) :
    (chain op).attempt backend server =
      { server with chain := finalState (op.run backend server.chain) } := by
  unfold attempt run onShares
  exact finalState_zoom _ _ _ _

end StratumOp

def attemptStratum
    (backend : Backend)
    (ops : List StratumOp)
    (server : StratumServer) :
    StratumServer :=
  ops.foldl (fun server op => op.attempt backend server) server

/--
A call of the server, or one of its session registry that issues work with a
difficulty and a parent of the caller.
-/
inductive StratumCall where
  | server (op : StratumOp)
  | issueWork
      (sessionId : UInt64)
      (consensusShareDifficulty : Option Difficulty128)
      (parentBinding : Option StratumShareParentBinding)

def StratumCall.attempt
    (backend : Backend)
    (call : StratumCall)
    (server : StratumServer) :
    StratumServer :=
  match call with
  | .server op => op.attempt backend server
  | .issueWork sessionId consensusShareDifficulty parentBinding =>
      finalState (StratumServer.onSessions
        (StratumSessionRegistry.issueWork sessionId consensusShareDifficulty
          parentBinding) server)

def attemptCalls
    (backend : Backend)
    (calls : List StratumCall)
    (server : StratumServer) :
    StratumServer :=
  calls.foldl (fun server call => call.attempt backend server) server

end ZanoP2pool
