import ZanoP2pool.DurableLog
import ZanoP2pool.ShareChainAtomicity
import ZanoP2pool.StratumServer

namespace ZanoP2pool

open Foundation

/-!
# What submissions do to the share chain

A submission either names the current work of its session with a new nonce, and is
offered to the chain once, or it is turned away before the chain sees it.  So the
chain of a server is the chain of a list of chain operations.
-/

namespace StratumServer

/-- The session and the work that a submission is offered to the chain for. -/
def pendingWork?
    (server : StratumServer)
    (sessionId : UInt64)
    (submission : StratumSubmission) :
    Option (StratumSession × StratumIssuedWork) := do
  let session ← server.sessions.findSession sessionId
  let issued ← session.currentWork
  if session.loggedIn ∧
      issued.wireWork.headerHash = submission.headerHash ∧
      (issued.jobVersion, submission.nonce) ∉ server.seenNonces sessionId then
    some (session, issued)
  else
    none

end StratumServer

/-- The operation that a call performs on the chain. -/
def StratumOp.chainOp?
    (backend : Backend)
    (op : StratumOp)
    (server : StratumServer) :
    Option ChainOp :=
  match op with
  | .chain op => some op
  | .submit sessionId submission now mode =>
      (server.pendingWork? sessionId submission).map fun (session, issued) =>
        .submit
          (submittedShare backend server.chain session issued submission.nonce
            now)
          issued.trustedContext now mode
  | _ => none

/-- The operations that a run performs on the chain, in order. -/
def chainHistory
    (backend : Backend) :
    List StratumOp → StratumServer → List ChainOp
  | [], _ => []
  | op :: rest, server =>
      (op.chainOp? backend server).toList ++
        chainHistory backend rest (op.attempt backend server)

namespace StratumServer

variable {backend : Backend} {server : StratumServer}
variable {sessionId : UInt64} {submission : StratumSubmission}
variable {now : UInt64} {mode : ProgPowZContextMode}

theorem pendingWork?_eq_some
    {session : StratumSession}
    {issued : StratumIssuedWork} :
    server.pendingWork? sessionId submission = some (session, issued) ↔
      server.sessions.findSession sessionId = some session ∧
        session.currentWork = some issued ∧
        session.loggedIn = true ∧
        issued.wireWork.headerHash = submission.headerHash ∧
        (issued.jobVersion, submission.nonce) ∉
          server.seenNonces sessionId := by
  unfold pendingWork?
  cases found : server.sessions.findSession sessionId with
  | none => simp
  | some other =>
      cases current : other.currentWork with
      | none =>
          simp only [Option.bind_eq_bind, Option.bind_some, current,
            Option.bind_none]
          constructor
          · intro impossible
            cases impossible
          · rintro ⟨same, held, _⟩
            cases same
            rw [current] at held
            cases held
      | some work =>
          simp only [Option.bind_eq_bind, Option.bind_some, current]
          constructor
          · intro chosen
            split_ifs at chosen with checks
            cases chosen
            exact ⟨rfl, current, checks⟩
          · rintro ⟨same, held, checks⟩
            cases same
            rw [current] at held
            cases held
            exact if_pos checks

/-- Matching reads the session and nothing else. -/
theorem matchSubmission_apply
    {session : StratumSession}
    {issued : StratumIssuedWork}
    (found : server.sessions.findSession sessionId = some session)
    (current : session.currentWork = some issued)
    (headerHash : Hash256) :
    onSessions (StratumSessionRegistry.matchSubmission sessionId headerHash)
        server =
      .ok
        (if issued.wireWork.headerHash = headerHash then .current
        else if session.previousWork.any fun previous =>
            decide (previous.wireWork.headerHash = headerHash) then .stale
        else .unknown)
        server := by
  unfold onSessions zoom StratumSessionRegistry.matchSubmission
  rw [bind_of_ok (StratumSessionRegistry.requireSession_found found)]
  simp only [current]
  split_ifs <;> rfl

/-- A submission of new work is offered after its nonce was recorded. -/
theorem submit_pending
    {session : StratumSession}
    {issued : StratumIssuedWork}
    (pending :
      server.pendingWork? sessionId submission = some (session, issued)) :
    submit backend sessionId submission now mode server =
      offerSubmission backend session issued submission.nonce now mode
        (server.recordNonce sessionId (issued.jobVersion, submission.nonce)) := by
  obtain ⟨found, current, loggedIn, header, fresh⟩ :=
    pendingWork?_eq_some.mp pending
  unfold submit
  rw [get_bind_apply, found]
  simp only [current, loggedIn, not_true_eq_false, if_false]
  rw [bind_of_ok (matchSubmission_apply found current _), if_pos header]
  simp only [if_neg fresh, set_bind_apply]

/-- The answers given without consulting the chain. -/
def TurnedAway (result : StratumSubmissionResult) : Prop :=
  result.disposition = .stale ∨ result.disposition = .duplicate ∨
    result.disposition = .unknownWork

/-- Any other submission is answered at once and changes nothing. -/
theorem submit_turnedAway
    (missing : server.pendingWork? sessionId submission = none) :
    ∃ result,
      submit backend sessionId submission now mode server =
          .ok result server ∧
        TurnedAway result := by
  unfold submit
  rw [get_bind_apply]
  cases found : server.sessions.findSession sessionId with
  | none => exact ⟨_, rfl, .inr (.inr rfl)⟩
  | some session =>
      cases current : session.currentWork with
      | none =>
          simp only [current]
          exact ⟨_, rfl, .inr (.inr rfl)⟩
      | some issued =>
          simp only [current]
          by_cases loggedIn : session.loggedIn = true
          swap
          · rw [if_pos loggedIn]
            exact ⟨_, rfl, .inr (.inr rfl)⟩
          rw [if_neg (not_not.mpr loggedIn),
            bind_of_ok (matchSubmission_apply found current _)]
          by_cases header : issued.wireWork.headerHash = submission.headerHash
          · rw [if_pos header]
            have seen :
                (issued.jobVersion, submission.nonce) ∈
                  server.seenNonces sessionId := by
              by_contra fresh
              have pending := pendingWork?_eq_some.mpr
                ⟨found, current, loggedIn, header, fresh⟩
              rw [missing] at pending
              cases pending
            simp only [if_pos seen]
            exact ⟨_, rfl, .inr (.inl rfl)⟩
          · rw [if_neg header]
            by_cases stale :
                (session.previousWork.any fun previous =>
                  decide (previous.wireWork.headerHash =
                    submission.headerHash)) = true
            · rw [if_pos stale]
              exact ⟨_, rfl, .inl rfl⟩
            · rw [if_neg stale]
              exact ⟨_, rfl, .inr (.inr rfl)⟩

/-- An offered submission ends as the submission of its share to the chain does. -/
theorem offerSubmission_apply
    (session : StratumSession)
    (issued : StratumIssuedWork)
    (nonce : UInt64) :
    offerSubmission backend session issued nonce now mode server =
      match shareId backend
        (submittedShare backend server.chain session issued nonce now) with
      | .error thrown => .error thrown server
      | .ok id =>
          match
            ShareChain.submitShare backend
              (submittedShare backend server.chain session issued nonce now)
              issued.trustedContext now mode server.chain
          with
          | .error thrown chain => .error thrown { server with chain }
          | .ok result chain =>
              .ok (submissionResult chain result id issued.jobVersion)
                { server with chain } := by
  unfold offerSubmission
  rw [get_bind_apply]
  cases shareId backend
      (submittedShare backend server.chain session issued nonce now) with
  | error thrown => rfl
  | ok id =>
      rw [bind_of_ok (orThrow_ok _ _), bind_apply]
      unfold onShares zoom
      cases ShareChain.submitShare backend
          (submittedShare backend server.chain session issued nonce now)
          issued.trustedContext now mode server.chain with
      | error thrown chain => rfl
      | ok result chain => rfl

theorem finalState_offerSubmission
    (session : StratumSession)
    (issued : StratumIssuedWork)
    (nonce : UInt64) :
    finalState (offerSubmission backend session issued nonce now mode server) =
      { server with
        chain :=
          finalState
            (ShareChain.submitShare backend
              (submittedShare backend server.chain session issued nonce now)
              issued.trustedContext now mode server.chain) } := by
  rw [offerSubmission_apply]
  cases keyed :
      shareId backend
        (submittedShare backend server.chain session issued nonce now) with
  | error thrown =>
      rw [ShareChain.submitShare_unkeyed keyed]
      rfl
  | ok id =>
      cases ShareChain.submitShare backend
          (submittedShare backend server.chain session issued nonce now)
          issued.trustedContext now mode server.chain with
      | error thrown chain => rfl
      | ok result chain => rfl

theorem offerSubmission_eq_ok
    {session : StratumSession}
    {issued : StratumIssuedWork}
    {nonce : UInt64}
    {result : StratumSubmissionResult}
    {final : StratumServer} :
    offerSubmission backend session issued nonce now mode server =
        .ok result final ↔
      ∃ id added chain,
        shareId backend
            (submittedShare backend server.chain session issued nonce now) =
          .ok id ∧
        ShareChain.submitShare backend
            (submittedShare backend server.chain session issued nonce now)
            issued.trustedContext now mode server.chain =
          .ok added chain ∧
        result = submissionResult chain added id issued.jobVersion ∧
        final = { server with chain } := by
  rw [offerSubmission_apply]
  cases shareId backend
      (submittedShare backend server.chain session issued nonce now) with
  | error thrown => simp
  | ok id =>
      cases ShareChain.submitShare backend
          (submittedShare backend server.chain session issued nonce now)
          issued.trustedContext now mode server.chain with
      | error thrown chain => simp
      | ok added chain =>
          constructor
          · intro answered
            cases answered
            exact ⟨id, added, chain, rfl, rfl, rfl, rfl⟩
          · rintro ⟨_, _, _, sameId, sameAdded, rfl, rfl⟩
            cases sameId
            cases sameAdded
            rfl

end StratumServer

/-- Issuing work changes sessions only. -/
theorem StratumServer.issueWork_sessions
    {server : StratumServer}
    (sessionId : UInt64) :
    ∃ sessions,
      finalState (issueWork sessionId server) = { server with sessions } := by
  unfold issueWork
  rw [get_bind_apply]
  cases server.sessions.currentTemplate with
  | none =>
      simp only [onSessions, finalState_zoom]
      exact ⟨_, rfl⟩
  | some workTemplate =>
      simp only
      by_cases standalone : server.sharedChain = true
      swap
      · rw [if_pos standalone]
        simp only [onSessions, finalState_zoom]
        exact ⟨_, rfl⟩
      rw [if_neg (not_not.mpr standalone)]
      cases workTemplate.parentBinding with
      | none => exact ⟨server.sessions, rfl⟩
      | some binding =>
          simp only
          cases requireParent server.chain binding with
          | error thrown => exact ⟨server.sessions, rfl⟩
          | ok _ =>
              rw [bind_of_ok (orThrow_ok _ _)]
              cases consensusDifficulty server.chain binding.parentId
                  workTemplate.networkDifficulty with
              | error thrown => exact ⟨server.sessions, rfl⟩
              | ok difficulty =>
                  rw [bind_of_ok (orThrow_ok _ _)]
                  simp only [onSessions, finalState_zoom]
                  exact ⟨_, rfl⟩

/-- The chain a call leaves is the chain its operation leaves. -/
theorem StratumOp.attempt_sameChain
    {backend : Backend}
    {server : StratumServer}
    (op : StratumOp) :
    (op.attempt backend server).chain =
      attemptOps backend (op.chainOp? backend server).toList server.chain := by
  cases op with
  | createSession => rw [attempt_createSession]; rfl
  | removeSession sessionId => rfl
  | login sessionId loginRequest => rw [attempt_login]; rfl
  | publishTemplate headerHash seedHash height networkDifficulty parentBinding =>
      rw [attempt_publishTemplate]
      rfl
  | issueWork sessionId =>
      obtain ⟨sessions, same⟩ :=
        @StratumServer.issueWork_sessions server sessionId
      rw [attempt_issueWork, same]
      rfl
  | submit sessionId submission now mode =>
      rw [attempt_submit]
      cases pending : server.pendingWork? sessionId submission with
      | none =>
          obtain ⟨result, answered, _⟩ :=
            @StratumServer.submit_turnedAway backend server sessionId
              submission now mode pending
          rw [answered]
          simp only [chainOp?, pending]
          rfl
      | some chosen =>
          obtain ⟨session, issued⟩ := chosen
          rw [StratumServer.submit_pending pending,
            StratumServer.finalState_offerSubmission]
          simp only [chainOp?, pending]
          exact (ChainOp.finalState_discard _).symm
  | chain op => rw [attempt_chain]; rfl

/-- The chain a run leaves is the chain its history leaves. -/
theorem attemptStratum_chain
    {backend : Backend}
    (ops : List StratumOp)
    (server : StratumServer) :
    (attemptStratum backend ops server).chain =
      attemptOps backend (chainHistory backend ops server) server.chain := by
  induction ops generalizing server with
  | nil => rfl
  | cons op rest inductionHypothesis =>
      rw [attemptStratum, List.foldl_cons, chainHistory, attemptOps,
        List.foldl_append, ← attemptOps, ← attemptOps, ← op.attempt_sameChain]
      exact inductionHypothesis (op.attempt backend server)

/-- A server that has just been started. -/
structure StratumServer.Started
    (backend : Backend)
    (server : StratumServer) :
    Prop where
  sessions :
    ∃ config, StratumSessionRegistry.create config = .ok server.sessions
  noNonces : server.submittedNonces = ∅
  chain : ShareChain.Fresh backend server.chain

section Refusals

variable {backend : Backend}

/-- A call keeps the chain sound. -/
theorem StratumCall.attempt_sound
    {server : StratumServer}
    (sound : ShareChain.Sound backend server.chain)
    (trusted : ShareChain.Trusted server.chain)
    (call : StratumCall) :
    ShareChain.Sound backend (call.attempt backend server).chain ∧
      ShareChain.Trusted (call.attempt backend server).chain := by
  cases call with
  | server op =>
      rw [StratumCall.attempt, op.attempt_sameChain]
      obtain ⟨nextSound, nextTrusted, _⟩ :=
        @attemptOps_sound backend (op.chainOp? backend server).toList
          server.chain sound trusted
      exact ⟨nextSound, nextTrusted⟩
  | issueWork sessionId consensusShareDifficulty parentBinding =>
      rw [StratumCall.attempt, StratumServer.onSessions, finalState_zoom]
      exact ⟨sound, trusted⟩

/-- The chain of every reachable server is sound. -/
theorem attemptCalls_sound
    {start : StratumServer}
    (started : start.Started backend)
    (calls : List StratumCall) :
    ShareChain.Sound backend (attemptCalls backend calls start).chain := by
  have wellFormed := started.chain.wellFormed
  have sound := wellFormed.sound
  have trusted := wellFormed.trusted
  clear wellFormed started
  induction calls generalizing start with
  | nil => exact sound
  | cons call rest inductionHypothesis =>
      obtain ⟨nextSound, nextTrusted⟩ := call.attempt_sound sound trusted
      exact inductionHypothesis nextSound nextTrusted

/-- The miner is told that the submission was not taken. -/
def StratumSubmissionResult.Refused (result : StratumSubmissionResult) : Prop :=
  result.disposition ≠ .acceptedShare ∧ result.disposition ≠ .blockCandidate

/-- The connected share carries what was issued and who was logged in. -/
structure StratumServer.Credited
    (backend : Backend)
    (server final : StratumServer)
    (sessionId : UInt64)
    (submission : StratumSubmission)
    (id : ShareId) :
    Prop where
  credited :
    ∃ session issued entry,
      server.pendingWork? sessionId submission = some (session, issued) ∧
      final.chain.find id = some entry ∧
      (∀ binding, issued.parentBinding = some binding →
        entry.share.parentId = binding.parentId ∧
          entry.share.shareHeight = binding.shareHeight) ∧
      entry.share.shareDifficulty = issued.shareDifficulty ∧
      entry.share.networkDifficulty = issued.trustedContext.networkDifficulty ∧
      entry.share.miningHeaderHash = issued.trustedContext.miningHeaderHash ∧
      entry.share.zanoHeight = issued.trustedContext.zanoHeight ∧
      entry.share.nonce = submission.nonce ∧
      entry.share.minerId = minerIdForSession backend session ∧
      entry.share.payout = session.payout

/--
The share passes every check on the share alone, is unknown to the chain, and the
chain does not hold its parent: it is kept as an orphan.
-/
def ShareChain.Waits
    (backend : Backend)
    (chain : ShareChain)
    (share : Share)
    (trustedContext : ShareWorkContext)
    (now : UInt64)
    (mode : ProgPowZContextMode) :
    Prop :=
  ∃ record,
    vetSubmission backend chain.difficultyPolicy share trustedContext now mode =
      some record ∧
    chain.contains record.id = false ∧
    chain.isOrphan record.id = false ∧
    share.parentId ≠ 0 ∧
    chain.contains share.parentId = false

/-- The submission is offered for a share that the chain keeps as an orphan. -/
def StratumServer.Detached
    (backend : Backend)
    (server : StratumServer)
    (sessionId : UInt64)
    (submission : StratumSubmission)
    (now : UInt64)
    (mode : ProgPowZContextMode) :
    Prop :=
  ∃ session issued,
    server.pendingWork? sessionId submission = some (session, issued) ∧
    ShareChain.Waits backend server.chain
      (submittedShare backend server.chain session issued submission.nonce now)
      issued.trustedContext now mode

/-- A submission is turned away, or it ends as its share does. -/
theorem StratumServer.submit_eq_ok
    {server final : StratumServer}
    {sessionId : UInt64}
    {submission : StratumSubmission}
    {now : UInt64}
    {mode : ProgPowZContextMode}
    {result : StratumSubmissionResult}
    (returned :
      submit backend sessionId submission now mode server =
        .ok result final) :
    (server.pendingWork? sessionId submission = none ∧ TurnedAway result ∧
        final = server) ∨
      ∃ session issued id added,
        server.pendingWork? sessionId submission = some (session, issued) ∧
        shareId backend
            (submittedShare backend server.chain session issued
              submission.nonce now) =
          .ok id ∧
        ShareChain.submitShare backend
            (submittedShare backend server.chain session issued
              submission.nonce now)
            issued.trustedContext now mode server.chain =
          .ok added final.chain ∧
        result = submissionResult final.chain added id issued.jobVersion := by
  cases pending : server.pendingWork? sessionId submission with
  | none =>
      obtain ⟨answer, answered, away⟩ :=
        @submit_turnedAway backend server sessionId submission now mode pending
      rw [returned] at answered
      cases answered
      exact .inl ⟨rfl, away, rfl⟩
  | some chosen =>
      obtain ⟨session, issued⟩ := chosen
      rw [submit_pending pending] at returned
      obtain ⟨id, added, chain, keyed, submitted, answer, rfl⟩ :=
        offerSubmission_eq_ok.mp returned
      exact .inr ⟨session, issued, id, added, rfl, keyed, submitted, answer⟩

theorem StratumServer.TurnedAway.refused
    {result : StratumSubmissionResult}
    (away : TurnedAway result) :
    result.Refused := by
  rcases away with same | same | same <;>
    exact ⟨by rw [same]; decide, by rw [same]; decide⟩

theorem StratumSubmissionResult.refused_of_rejected
    {result : StratumSubmissionResult}
    (rejected : result.disposition = .rejected) :
    result.Refused := by
  constructor
  · rw [rejected]
    decide
  · rw [rejected]
    decide

/-- A share that the chain did not take is refused for the reason of the chain. -/
theorem StratumServer.submissionResult_untaken
    {added : AddShareResult}
    (untaken :
      added.disposition = .duplicate ∨ added.disposition = .rejected)
    (chain : ShareChain)
    (id : ShareId)
    (jobVersion : UInt64) :
    submissionResult chain added id jobVersion =
      { disposition := .rejected
        rejectReason := added.rejectReason
        shareId := id
        jobVersion } := by
  have checks : added.disposition ≠ .connected ∧ added.disposition ≠ .orphan := by
    rcases untaken with same | same <;> rw [same] <;> decide
  unfold submissionResult
  rw [if_pos checks]

/-- A buffered share is refused, as it is not connected. -/
theorem StratumServer.submissionResult_missing
    {chain : ShareChain}
    {added : AddShareResult}
    {id : ShareId}
    (missing : chain.find id = none)
    (jobVersion : UInt64) :
    (submissionResult chain added id jobVersion).Refused := by
  apply StratumSubmissionResult.refused_of_rejected
  unfold submissionResult
  split_ifs
  · rfl
  · rw [missing]
    rfl

/-- A connected share whose work was evaluated is accepted. -/
theorem StratumServer.submissionResult_accepted
    {chain : ShareChain}
    {added : AddShareResult}
    {id : ShareId}
    {entry : ConnectedShare}
    {validation : CandidateValidation}
    (connected : added.disposition = .connected)
    (found : chain.find id = some entry)
    (validated : entry.powValidation = some validation)
    (jobVersion : UInt64) :
    submissionResult chain added id jobVersion =
      { disposition :=
          if validation.classification = .block then .blockCandidate
          else .acceptedShare
        shareId := id
        jobVersion } := by
  have checks : ¬ (added.disposition ≠ .connected ∧ added.disposition ≠ .orphan) :=
    fun both => both.1 connected
  unfold submissionResult
  rw [if_neg checks, found, Option.bind_some, validated]
  by_cases block : validation.classification = .block
  · simp only [if_pos block]
  · simp only [if_neg block]

/-- A promotion leaves every connected entry as it is. -/
theorem ShareChain.Growths.keepsEntry
    {chain next : ShareChain}
    (growths : ShareChain.Growths backend none chain next)
    {id : ShareId}
    {entry : ConnectedShare}
    (found : chain.connected[id]? = some entry) :
    next.connected[id]? = some entry := by
  induction growths with
  | refl => exact found
  | tail _ growth inductionHypothesis =>
      cases growth with
      | attach _ _ fresh _ _ =>
          exact (getElem?_insert_fresh fresh _).mpr (.inr inductionHypothesis)
      | buffer offered _ _ _ _ _ => cases offered
      | discard _ _ _ _ => exact inductionHypothesis
      | unindex _ => exact inductionHypothesis

/-- A parent with a branch is zero or connected. -/
theorem Branch.known
    {connected : ShareMap ConnectedShare}
    {id : ShareId}
    {branch : List Share}
    (isBranch : Branch connected id branch) :
    id = 0 ∨ connected.contains id = true := by
  cases isBranch with
  | root => exact .inl rfl
  | step _ found _ => exact .inr (contains_iff_getElem?.mpr ⟨_, found⟩)

/-- A share with a branch does not wait. -/
theorem ShareChain.not_waits_of_branch
    {chain : ShareChain}
    {share : Share}
    {trustedContext : ShareWorkContext}
    {now : UInt64}
    {mode : ProgPowZContextMode}
    {branch : List Share}
    (isBranch : Branch chain.connected share.parentId branch) :
    ¬ Waits backend chain share trustedContext now mode := by
  rintro ⟨_, _, _, _, nonzero, missing⟩
  rcases isBranch.known with zero | held
  · exact nonzero zero
  · rw [ShareChain.contains, held] at missing
    cases missing

/-- What a submission that returns did to the chain. -/
theorem ShareChain.submitShare_reported
    {chain final : ShareChain}
    (sound : Sound backend chain)
    {share : Share}
    {trustedContext : ShareWorkContext}
    {now : UInt64}
    {mode : ProgPowZContextMode}
    {id : ShareId}
    {added : AddShareResult}
    (keyed : shareId backend share = .ok id)
    (submitted :
      submitShare backend share trustedContext now mode chain =
        .ok added final) :
    (final = chain ∧
        (added.disposition = .duplicate ∨ added.disposition = .rejected) ∧
        ¬ Waits backend chain share trustedContext now mode) ∨
      (final ≠ chain ∧ final.find id = none ∧
        Waits backend chain share trustedContext now mode) ∨
      (added.disposition = .connected ∧
        ¬ Waits backend chain share trustedContext now mode ∧
        ∃ entry validation,
          final.find id = some entry ∧ entry.share = share ∧
            entry.powValidation = some validation) := by
  rcases submitShare_outcome sound.standing share trustedContext now mode with
    ⟨record, vetted, outcome⟩ | ⟨unvetted, unchanged⟩
  swap
  · -- The chain does not consider a share that fails a check of its own.
    have alone : ¬ Waits backend chain share trustedContext now mode := by
      rintro ⟨record, vetted, _⟩
      rw [unvetted] at vetted
      cases vetted
    rw [submitted] at unchanged
    rcases unchanged with ⟨thrown, same⟩ | ⟨value, same, untaken⟩
    · cases same
    · cases same
      exact .inl ⟨rfl, untaken, alone⟩
  obtain ⟨other, validation, checks, rfl⟩ := vetSubmission_eq_some.mp vetted
  have sameKey := checks.keyed
  rw [keyed] at sameKey
  cases sameKey
  have parted :
      ∀ {branch : List Share},
        Branch chain.connected share.parentId branch →
          ¬ Waits backend chain share trustedContext now mode :=
    fun isBranch => not_waits_of_branch isBranch
  rw [submitted] at outcome
  cases outcome with
  | duplicate known =>
      refine .inl ⟨rfl, .inl rfl, ?_⟩
      rintro ⟨record, again, fresh, notBuffered, _⟩
      rw [vetted] at again
      cases again
      rw [fresh, notBuffered] at known
      cases known
  | malformed _ _ structural malformed =>
      rw [← structural] at malformed
      exact absurd checks.structural malformed
  | buffered fresh notBuffered _ nonzero missing =>
      refine .inr (.inl ⟨?_, fresh, _, vetted, contains_eq_false_iff.mpr fresh,
        contains_eq_false_iff.mpr notBuffered, nonzero,
        contains_eq_false_iff.mpr missing⟩)
      intro same
      have stored :
          (chain.buffer (submissionRecord chain.difficultyPolicy share id
            validation)).orphans[id]? ≠ none := by
        rw [show (chain.buffer (submissionRecord chain.difficultyPolicy share id
            validation)).orphans[id]? = some _ from
          getElem?_insert_iff.mpr (.inl ⟨rfl, rfl⟩)]
        exact Option.some_ne_none _
      rw [same] at stored
      exact stored notBuffered
  | refused _ _ _ isBranch _ _ =>
      exact .inl ⟨rfl, .inr rfl, parted isBranch⟩
  | @connected branch promotedOrphans _ fresh _ wellFormed isBranch judged
      promoted =>
      have growths := promoteChildren_growths id
        (sound.attach wellFormed fresh isBranch judged) none
      rw [show promoteChildren id _ = _ from promoted] at growths
      have attached := growths.keepsEntry
        ((getElem?_insert_fresh fresh _).mpr (.inl ⟨rfl, rfl⟩))
      exact .inr (.inr ⟨rfl, parted isBranch, _, validation, attached, rfl,
        rfl⟩)

end Refusals

/-- A connected share carries what was issued to its session. -/
theorem StratumServer.credited_of_found
    {backend : Backend}
    {server final : StratumServer}
    {sessionId : UInt64}
    {submission : StratumSubmission}
    {session : StratumSession}
    {issued : StratumIssuedWork}
    {now : UInt64}
    {id : ShareId}
    {entry : ConnectedShare}
    (pending :
      server.pendingWork? sessionId submission = some (session, issued))
    (found : final.chain.find id = some entry)
    (same :
      entry.share =
        submittedShare backend server.chain session issued submission.nonce
          now) :
    Credited backend server final sessionId submission id := by
  refine ⟨session, issued, entry, pending, found, ?_, ?_⟩
  · intro binding bound
    rw [same]
    simp only [submittedShare, submittedParent, bound, and_self]
  · rw [same]
    exact ⟨rfl, rfl, rfl, rfl, rfl, rfl, rfl⟩

/--
After any run of a started server, a submission that returns leaves the chain alone
when it is refused and otherwise connects the issued work under the miner of the
session, exactly when the submission is not kept as an orphan.
-/
theorem refusedSubmission_iff
    {backend : Backend}
    {start final : StratumServer}
    (started : start.Started backend)
    (calls : List StratumCall)
    {sessionId : UInt64}
    {submission : StratumSubmission}
    {now : UInt64}
    {mode : ProgPowZContextMode}
    {result : StratumSubmissionResult}
    (returned :
      StratumServer.submit backend sessionId submission now mode
          (attemptCalls backend calls start) =
        .ok result final) :
    ((result.Refused →
          final.chain = (attemptCalls backend calls start).chain) ∧
        (¬ result.Refused →
          StratumServer.Credited backend (attemptCalls backend calls start)
            final sessionId submission result.shareId)) ↔
      ¬ StratumServer.Detached backend (attemptCalls backend calls start)
        sessionId submission now mode := by
  have sound := attemptCalls_sound started calls
  rcases StratumServer.submit_eq_ok returned with
    ⟨pending, away, rfl⟩ |
      ⟨session, issued, id, added, pending, keyed, submitted, rfl⟩
  · refine iff_of_true ⟨fun _ => rfl, fun taken => (taken away.refused).elim⟩ ?_
    rintro ⟨session, issued, chosen, _⟩
    rw [pending] at chosen
    cases chosen
  have waits_iff :
      StratumServer.Detached backend (attemptCalls backend calls start)
          sessionId submission now mode ↔
        ShareChain.Waits backend (attemptCalls backend calls start).chain
          (submittedShare backend
            (attemptCalls backend calls start).chain session issued
            submission.nonce now)
          issued.trustedContext now mode := by
    constructor
    · rintro ⟨_, _, chosen, waits⟩
      rw [pending] at chosen
      cases chosen
      exact waits
    · exact fun waits => ⟨session, issued, pending, waits⟩
  rw [waits_iff]
  rcases ShareChain.submitShare_reported sound keyed submitted with
    ⟨unchanged, untaken, settled⟩ | ⟨changed, missing, waits⟩ |
      ⟨connected, settled, entry, validation, found, same, validated⟩
  · rw [StratumServer.submissionResult_untaken untaken]
    refine iff_of_true ⟨fun _ => unchanged, fun taken => ?_⟩ settled
    exact (taken (StratumSubmissionResult.refused_of_rejected rfl)).elim
  · refine iff_of_false ?_ (not_not.mpr waits)
    rintro ⟨kept, _⟩
    exact changed
      (kept (StratumServer.submissionResult_missing missing issued.jobVersion))
  · rw [StratumServer.submissionResult_accepted connected found validated]
    refine iff_of_true ⟨?_, ?_⟩ settled
    · rintro ⟨notAccepted, notBlock⟩
      by_cases block : validation.classification = .block
      · exact (notBlock (if_pos block)).elim
      · exact (notAccepted (if_neg block)).elim
    · intro _
      exact StratumServer.credited_of_found pending found same

/-- A full node on the sample chain. -/
def sampleStratum : StratumServer where
  sharedChain := true
  chain := sampleStart

theorem sampleStratum_started : sampleStratum.Started sampleBackend :=
  ⟨⟨{}, rfl⟩, rfl, .inr ⟨sampleParameters, sampleStart_built⟩⟩

/-- A miner is given work below a connected root. -/
def sampleJobOps : List StratumOp :=
  [ .createSession
  , .login 1
      { username := [0x6d], password := [], worker := [], requestedDifficulty := none }
  , .chain (.submit (sampleShare 0 0 0 1) sampleContext 1000 .light)
  , .publishTemplate 5 0 7 2 (some { parentId := 1, shareHeight := 1 })
  , .issueWork 1 ]

/-- The work is asked for again, with the difficulty and the parent it has. -/
def sampleJobCalls : List StratumCall :=
  sampleJobOps.map .server ++
    [.issueWork 1 (some 1) (some { parentId := 1, shareHeight := 1 })]

def sampleMinedSubmission : StratumSubmission where
  nonce := 1
  headerHash := 5
  mixHash := 0
  worker := []

/-- While the root is connected, the work is accepted and credited. -/
theorem refusedSubmission_iff_accepted :
    ∃ final,
      StratumServer.submit sampleBackend 1 sampleMinedSubmission 1000 .light
          (attemptCalls sampleBackend sampleJobCalls sampleStratum) =
        .ok { disposition := .acceptedShare, shareId := 2, jobVersion := 1 }
          final ∧
      StratumServer.Credited sampleBackend
        (attemptCalls sampleBackend sampleJobCalls sampleStratum) final 1
        sampleMinedSubmission 2 := by
  have answered := eq_ok_of_returned (show
    returned (StratumServer.submit sampleBackend 1 sampleMinedSubmission 1000 .light
        (attemptCalls sampleBackend sampleJobCalls sampleStratum)) =
      some { disposition := .acceptedShare, shareId := 2, jobVersion := 1 } by
    decide +kernel)
  refine ⟨_, answered, ?_⟩
  refine ((refusedSubmission_iff sampleStratum_started sampleJobCalls
    answered).mpr ?_).2 (fun refused => refused.1 rfl)
  rintro ⟨session, issued, pending, _, _, _, _, _, missing⟩
  have parent :
      ((attemptCalls sampleBackend sampleJobCalls sampleStratum).pendingWork? 1
          sampleMinedSubmission).map
        (fun (_, issued) =>
          (submittedParent
            (attemptCalls sampleBackend sampleJobCalls sampleStratum).chain
            issued).1) =
        some 1 := by
    decide +kernel
  rw [pending] at parent
  have same := Option.some.inj parent
  have connected :
      (attemptCalls sampleBackend sampleJobCalls sampleStratum).chain.contains
        1 = true := by
    decide +kernel
  rw [← same] at connected
  exact Bool.false_ne_true (missing.symm.trans connected)

/-- Once the root is pruned, the work is refused and its share kept as an orphan. -/
theorem prunedParent_refusedAndKept :
    sampleStratum.Started sampleBackend ∧
      ∃ final,
        StratumServer.submit sampleBackend 1 sampleMinedSubmission 1000 .light
            (attemptCalls sampleBackend
              (sampleJobCalls ++ [.server (.chain (.prune 1))])
              sampleStratum) =
          .ok { disposition := .rejected, shareId := 2, jobVersion := 1 } final ∧
        final.chain ≠
          (attemptCalls sampleBackend
              (sampleJobCalls ++ [.server (.chain (.prune 1))])
            sampleStratum).chain := by
  refine ⟨sampleStratum_started, _, eq_ok_of_returned (by decide +kernel), ?_⟩
  intro unchanged
  have buffered := congrArg (fun chain => chain.isOrphan 2) unchanged
  exact absurd buffered (by decide +kernel)

end ZanoP2pool
