import ZanoP2pool.StratumSubmission

namespace ZanoP2pool

open Foundation

/-!
# Requests of miners over whole runs

What a connection makes a server do is a run of the server's own calls.  Over any
run each nonce of a job is offered to the chain once, and a share is handed on
for gossip and storage only for a nonce that was offered.
-/

namespace StratumServer

/-- The calls that a request makes. -/
def requestOps
    (backend : Backend)
    (sessionId : UInt64)
    (request : StratumRequest)
    (now : UInt64)
    (server : StratumServer) :
    List StratumOp :=
  match stratumMethod request with
  | .submitLogin =>
      match parseStratumLogin request with
      | .error _ => []
      | .ok login =>
          .login sessionId login ::
            match StratumSessionRegistry.login backend sessionId login
              server.sessions with
            | .error _ _ => []
            | .ok _ _ => [.issueWork sessionId]
  | .getWork => [.issueWork sessionId]
  | .submitHashrate => []
  | .submitWork =>
      match parseStratumSubmission request with
      | .error _ => []
      | .ok submission => [.submit sessionId submission now .light]
  | .unknown => []

end StratumServer

/-- What happens at the server: connections, their requests, and other calls. -/
inductive StratumEvent where
  | request (sessionId : UInt64) (request : StratumRequest) (now : UInt64)
  | call (op : StratumOp)

/-- A session, one of its jobs and a nonce. -/
abbrev JobNonce := UInt64 × UInt64 × UInt64

/-- A nonce of a job, with the share it stands for. -/
structure StratumOffer where
  key : JobNonce
  share : Share

/-- What a call offers to the chain. -/
def StratumOp.offer?
    (backend : Backend)
    (server : StratumServer) :
    StratumOp → Option StratumOffer
  | .submit sessionId submission now _ =>
      (server.pendingWork? sessionId submission).map fun (session, issued) =>
        { key := (sessionId, issued.jobVersion, submission.nonce)
          share :=
            submittedShare backend server.chain session issued
              submission.nonce now }
  | _ => none

/-- What a run offers to the chain, in order. -/
def offers
    (backend : Backend) :
    List StratumOp → StratumServer → List StratumOffer
  | [], _ => []
  | op :: rest, server =>
      (op.offer? backend server).toList ++
        offers backend rest (op.attempt backend server)

namespace StratumEvent

def ops (backend : Backend) (server : StratumServer) :
    StratumEvent → List StratumOp
  | .request sessionId line now =>
      server.requestOps backend sessionId line now
  | .call op => [op]

/-- The server after an event, and the share it hands on. -/
def serve
    (backend : Backend)
    (server : StratumServer) :
    StratumEvent → StratumServer × Option StratumServer.AcceptedShare
  | .request sessionId line now =>
      ((server.handleRequest backend sessionId line now).2,
        (server.handleRequest backend sessionId line now).1.2)
  | .call op => (op.attempt backend server, none)

end StratumEvent

def serveAll
    (backend : Backend)
    (events : List StratumEvent)
    (server : StratumServer) :
    StratumServer :=
  events.foldl (fun server event => (event.serve backend server).1) server

/-- The calls of a run of events. -/
def eventOps (backend : Backend) :
    List StratumEvent → StratumServer → List StratumOp
  | [], _ => []
  | event :: rest, server =>
      event.ops backend server ++
        eventOps backend rest (event.serve backend server).1

/-- The shares that a run hands on, each with the chain it is handed on from. -/
def handedOn (backend : Backend) :
    List StratumEvent → StratumServer →
      List (StratumServer.AcceptedShare × ShareChain)
  | [], _ => []
  | event :: rest, server =>
      ((event.serve backend server).2.map fun accepted =>
          (accepted, (event.serve backend server).1.chain)).toList ++
        handedOn backend rest (event.serve backend server).1

/--
A share is handed on for an offer: it is the offered share, which is connected by
then, and it is flagged if its work solves a block.
-/
structure Delivers
    (backend : Backend)
    (handed : StratumServer.AcceptedShare × ShareChain)
    (offer : StratumOffer) :
    Prop where
  share : handed.1.share = offer.share
  nonce : handed.1.share.nonce = offer.key.2.2
  connected :
    ∃ id entry validation,
      shareId backend handed.1.share = .ok id ∧
      handed.2.find id = some entry ∧
      entry.share = handed.1.share ∧
      entry.powValidation = some validation ∧
      handed.1.blockCandidate = decide (validation.classification = .block)

namespace StratumServer

variable {backend : Backend} {server : StratumServer}
variable {sessionId now : UInt64} {request : StratumRequest}

/-- A request ends in the state of the calls it makes. -/
theorem finalState_answerRequest :
    finalState (answerRequest backend sessionId request now server) =
      attemptStratum backend
        (server.requestOps backend sessionId request now) server := by
  have issues :
      ∀ (server : StratumServer)
        (answer : StratumIssuedWork → List StratumReply × Option AcceptedShare),
        finalState
            ((do let work ← issueWork sessionId; return answer work :
              StratumM _) server) =
          finalState (issueWork sessionId server) := by
    intro server answer
    rw [bind_apply]
    cases issueWork sessionId server <;> rfl
  unfold answerRequest requestOps
  cases stratumMethod request with
  | submitLogin =>
      cases parsed : parseStratumLogin request with
      | error thrown => rfl
      | ok login =>
          dsimp only
          rw [bind_of_ok (orThrow_ok _ _)]
          cases logged :
            StratumSessionRegistry.login backend sessionId login
              server.sessions with
          | error thrown sessions =>
              have entered :
                  onSessions
                      (StratumSessionRegistry.login backend sessionId login)
                      server =
                    .error thrown { server with sessions } :=
                zoom_eq_error.mpr ⟨sessions, logged, rfl⟩
              rw [bind_of_error entered]
              simp only [attemptStratum, List.foldl_cons, List.foldl_nil,
                StratumOp.attempt_login, logged]
              rfl
          | ok value sessions =>
              have entered :
                  onSessions
                      (StratumSessionRegistry.login backend sessionId login)
                      server =
                    .ok value { server with sessions } :=
                zoom_eq_ok.mpr ⟨sessions, logged, rfl⟩
              rw [bind_of_ok entered, issues]
              simp only [attemptStratum, List.foldl_cons, List.foldl_nil,
                StratumOp.attempt_login, StratumOp.attempt_issueWork, logged]
              rfl
  | getWork =>
      dsimp only
      rw [issues]
      simp only [attemptStratum, List.foldl_cons, List.foldl_nil,
        StratumOp.attempt_issueWork]
  | submitHashrate =>
      dsimp only
      rw [get_bind_apply]
      split_ifs <;> rfl
  | submitWork =>
      cases parsed : parseStratumSubmission request with
      | error thrown => rfl
      | ok submission =>
          dsimp only
          rw [bind_of_ok (orThrow_ok _ _)]
          simp only [attemptStratum, List.foldl_cons, List.foldl_nil,
            StratumOp.attempt_submit]
          rw [bind_apply]
          cases submit backend sessionId submission now .light server with
          | error thrown next => rfl
          | ok result next =>
              dsimp only
              split_ifs <;> rfl
  | unknown => rfl

/-- A submission that is accepted hands on the share it was offered for. -/
theorem acceptedShare_delivers
    (sound : ShareChain.Sound backend server.chain)
    {submission : StratumSubmission}
    {mode : ProgPowZContextMode}
    {result : StratumSubmissionResult}
    {next : StratumServer}
    (returned :
      submit backend sessionId submission now mode server = .ok result next)
    (taken : ¬ result.Refused)
    {accepted : AcceptedShare}
    (handed : acceptedShare next.chain result = some accepted) :
    ∃ offer,
      (StratumOp.submit sessionId submission now mode).offer? backend server =
        some offer ∧
      Delivers backend (accepted, next.chain) offer := by
  rcases submit_eq_ok returned with
    ⟨_, away, _⟩ | ⟨session, issued, id, added, pending, keyed, submitted, rfl⟩
  · exact (taken away.refused).elim
  refine ⟨⟨(sessionId, issued.jobVersion, submission.nonce),
    submittedShare backend server.chain session issued submission.nonce now⟩,
    by simp [StratumOp.offer?, pending], ?_⟩
  rcases ShareChain.submitShare_reported sound keyed submitted with
    ⟨_, untaken, _⟩ | ⟨_, missing, _⟩ |
      ⟨connected, _, entry, validation, found, same, validated⟩
  · rw [submissionResult_untaken untaken] at taken
    exact (taken (StratumSubmissionResult.refused_of_rejected rfl)).elim
  · exact (taken (submissionResult_missing missing issued.jobVersion)).elim
  · rw [submissionResult_accepted connected found validated] at handed
    rw [acceptedShare, found, Option.map_some, Option.some.injEq] at handed
    subst handed
    refine ⟨same, by rw [same]; rfl, id, entry, validation, ?_, found, rfl,
      validated, ?_⟩
    · rw [same]
      exact keyed
    · by_cases block : validation.classification = .block
      · simp [block]
      · simp [block]

/-- A request hands on a share only for what it offers. -/
theorem handed_offered
    (sound : ShareChain.Sound backend server.chain)
    {accepted : AcceptedShare}
    (handed :
      (server.handleRequest backend sessionId request now).1.2 =
        some accepted) :
    ∃ offer,
      offers backend (server.requestOps backend sessionId request now)
        server = [offer] ∧
      Delivers backend
        (accepted,
          (server.handleRequest backend sessionId request now).2.chain)
        offer := by
  unfold handleRequest at handed ⊢
  cases answered : answerRequest backend sessionId request now server with
  | error thrown next =>
      rw [answered] at handed
      cases handed
  | ok answer next =>
      rw [answered] at handed
      dsimp only at handed ⊢
      unfold answerRequest at answered
      unfold requestOps
      cases method : stratumMethod request with
      | submitLogin =>
          rw [method] at answered
          obtain ⟨login, _, _, later⟩ := bind_eq_ok.mp answered
          obtain ⟨_, _, _, later⟩ := bind_eq_ok.mp later
          obtain ⟨work, _, _, later⟩ := bind_eq_ok.mp later
          cases later
          cases handed
      | getWork =>
          rw [method] at answered
          obtain ⟨work, _, _, later⟩ := bind_eq_ok.mp answered
          cases later
          cases handed
      | submitHashrate =>
          rw [method] at answered
          dsimp only at answered
          rw [get_bind_apply] at answered
          split_ifs at answered <;> cases answered <;> cases handed
      | unknown =>
          rw [method] at answered
          cases answered
          cases handed
      | submitWork =>
          rw [method] at answered
          obtain ⟨submission, _, parsed, later⟩ := bind_eq_ok.mp answered
          obtain ⟨isSubmission, rfl⟩ := orThrow_eq_ok.mp parsed
          obtain ⟨result, afterSubmit, returned, later⟩ := bind_eq_ok.mp later
          rw [isSubmission]
          by_cases taken :
              result.disposition = .acceptedShare ∨
                result.disposition = .blockCandidate
          · rw [if_pos taken, get_bind_apply] at later
            cases later
            obtain ⟨offer, offered, delivers⟩ :=
              acceptedShare_delivers sound returned
                (fun refused => taken.elim refused.1 refused.2) handed
            refine ⟨offer, ?_, delivers⟩
            simp only [offers, offered, Option.toList_some, List.append_nil]
          · rw [if_neg taken] at later
            cases later
            cases handed

/-- The nonces of a session after one more has been recorded. -/
theorem seenNonces_recordNonce
    (recordedFor session : UInt64)
    (key : UInt64 × UInt64) :
    (server.recordNonce recordedFor key).seenNonces session =
      if recordedFor = session then key :: server.seenNonces session
      else server.seenNonces session := by
  unfold recordNonce seenNonces
  rw [Std.ExtTreeMap.getElem?_insert]
  by_cases same : recordedFor = session
  · subst same
    simp
  · have differs : compare recordedFor session ≠ .eq := by
      simpa [Std.LawfulEqCmp.compare_eq_iff_eq] using same
    rw [if_neg differs, if_neg same]

theorem mem_recordNonce
    {recordedFor session : UInt64}
    {key other : UInt64 × UInt64}
    (seen : key ∈ server.seenNonces session) :
    key ∈ (server.recordNonce recordedFor other).seenNonces session := by
  rw [seenNonces_recordNonce]
  split_ifs
  · exact List.mem_cons_of_mem _ seen
  · exact seen

/-- A nonce that a session has submitted stays submitted. -/
theorem seenNonces_attempt
    (op : StratumOp)
    {session : UInt64}
    {key : UInt64 × UInt64}
    (seen : key ∈ server.seenNonces session) :
    key ∈ (op.attempt backend server).seenNonces session := by
  cases op with
  | createSession =>
      rw [StratumOp.attempt_createSession]
      exact seen
  | removeSession id => exact seen
  | login id loginRequest =>
      rw [StratumOp.attempt_login]
      exact seen
  | publishTemplate headerHash seedHash height networkDifficulty parentBinding =>
      rw [StratumOp.attempt_publishTemplate]
      exact seen
  | issueWork id =>
      rw [StratumOp.attempt_issueWork]
      obtain ⟨sessions, same⟩ := @issueWork_sessions server id
      rw [same]
      exact seen
  | submit id submission now mode =>
      rw [StratumOp.attempt_submit]
      cases pending : server.pendingWork? id submission with
      | none =>
          obtain ⟨result, answered, _⟩ :=
            @submit_turnedAway backend server id submission now mode pending
          rw [answered]
          exact seen
      | some chosen =>
          obtain ⟨chosenSession, issued⟩ := chosen
          rw [submit_pending pending, finalState_offerSubmission]
          exact mem_recordNonce seen
  | chain op =>
      rw [StratumOp.attempt_chain]
      exact seen

/-- An offered nonce is new to its session, and no longer so afterwards. -/
theorem offer_recorded
    {op : StratumOp}
    {offer : StratumOffer}
    (offered : op.offer? backend server = some offer) :
    offer.key.2 ∉ server.seenNonces offer.key.1 ∧
      offer.key.2 ∈
        (op.attempt backend server).seenNonces offer.key.1 := by
  cases op with
  | submit id submission now mode =>
      obtain ⟨chosen, pending, rfl⟩ := Option.map_eq_some_iff.mp offered
      obtain ⟨session, issued⟩ := chosen
      obtain ⟨_, _, _, _, fresh⟩ := pendingWork?_eq_some.mp pending
      refine ⟨fresh, ?_⟩
      rw [StratumOp.attempt_submit, submit_pending pending,
        finalState_offerSubmission]
      change _ ∈ (server.recordNonce id _).seenNonces id
      rw [seenNonces_recordNonce, if_pos rfl]
      exact List.mem_cons_self ..
  | createSession => cases offered
  | removeSession id => cases offered
  | login id loginRequest => cases offered
  | publishTemplate headerHash seedHash height networkDifficulty parentBinding =>
      cases offered
  | issueWork id => cases offered
  | chain op => cases offered

/-- Over a run nothing is offered twice, nor what was submitted before. -/
theorem offers_nodup
    (ops : List StratumOp)
    (server : StratumServer) :
    ((offers backend ops server).map StratumOffer.key).Nodup ∧
      ∀ offer ∈ offers backend ops server,
        offer.key.2 ∉ server.seenNonces offer.key.1 := by
  induction ops generalizing server with
  | nil => exact ⟨List.nodup_nil, fun _ member => absurd member List.not_mem_nil⟩
  | cons op rest inductionHypothesis =>
      obtain ⟨distinct, unseen⟩ :=
        inductionHypothesis (op.attempt backend server)
      have unseenLater :
          ∀ offer ∈ offers backend rest (op.attempt backend server),
            offer.key.2 ∉ server.seenNonces offer.key.1 :=
        fun offer member seen =>
          unseen offer member (seenNonces_attempt op seen)
      rw [offers]
      cases offered : op.offer? backend server with
      | none => exact ⟨distinct, unseenLater⟩
      | some first =>
          obtain ⟨fresh, recorded⟩ := offer_recorded offered
          rw [Option.toList_some, List.singleton_append]
          refine ⟨List.nodup_cons.mpr ⟨?_, distinct⟩, ?_⟩
          · intro again
            obtain ⟨offer, member, same⟩ := List.mem_map.mp again
            rw [← same] at recorded
            exact unseen offer member recorded
          · intro offer member
            rcases List.mem_cons.mp member with rfl | later
            · exact fresh
            · exact unseenLater offer later

theorem offers_append
    (ops later : List StratumOp)
    (server : StratumServer) :
    offers backend (ops ++ later) server =
      offers backend ops server ++
        offers backend later (attemptStratum backend ops server) := by
  induction ops generalizing server with
  | nil => rfl
  | cons op rest inductionHypothesis =>
      rw [List.cons_append, offers, inductionHypothesis, offers,
        List.append_assoc]
      rfl

end StratumServer

namespace StratumEvent

variable {backend : Backend} {server : StratumServer}

/-- An event ends in the state of its calls. -/
theorem serve_state (event : StratumEvent) :
    (event.serve backend server).1 =
      attemptStratum backend (event.ops backend server) server := by
  cases event with
  | call op => rfl
  | request sessionId request now =>
      have same :
          (server.handleRequest backend sessionId request now).2 =
            finalState
              (server.answerRequest backend sessionId request now) := by
        unfold StratumServer.handleRequest
        cases server.answerRequest backend sessionId request now <;> rfl
      exact same.trans StratumServer.finalState_answerRequest

/-- An event hands on a share only for its only offer. -/
theorem serve_delivers
    (sound : ShareChain.Sound backend server.chain)
    {event : StratumEvent}
    {accepted : StratumServer.AcceptedShare}
    (handed : (event.serve backend server).2 = some accepted) :
    ∃ offer,
      offers backend (event.ops backend server) server = [offer] ∧
      Delivers backend (accepted, (event.serve backend server).1.chain)
        offer := by
  cases event with
  | call op => cases handed
  | request sessionId request now =>
      exact StratumServer.handed_offered sound handed

/-- An event keeps the chain sound. -/
theorem serve_sound
    (sound : ShareChain.Sound backend server.chain)
    (trusted : ShareChain.Trusted server.chain)
    (event : StratumEvent) :
    ShareChain.Sound backend (event.serve backend server).1.chain ∧
      ShareChain.Trusted (event.serve backend server).1.chain := by
  rw [event.serve_state, attemptStratum_chain]
  obtain ⟨nextSound, nextTrusted, _⟩ :=
    @attemptOps_sound backend
      (chainHistory backend (event.ops backend server) server) server.chain
      sound trusted
  exact ⟨nextSound, nextTrusted⟩

end StratumEvent

/-- What a run of events does to the chain and to the nonces of the miners. -/
structure ServiceLaws
    (backend : Backend)
    (events : List StratumEvent)
    (server : StratumServer) :
    Prop where
  refines :
    serveAll backend events server =
      attemptStratum backend (eventOps backend events server) server
  chain :
    (serveAll backend events server).chain =
      attemptOps backend
        (chainHistory backend (eventOps backend events server) server)
        server.chain
  offeredOnce :
    ((offers backend (eventOps backend events server) server).map
      StratumOffer.key).Nodup
  delivered :
    ∃ chosen : List StratumOffer,
      chosen.Sublist
        (offers backend (eventOps backend events server) server) ∧
      List.Forall₂ (Delivers backend) (handedOn backend events server) chosen

/-- A run of events ends in the state of the calls it makes. -/
theorem serveAll_eq
    {backend : Backend}
    (events : List StratumEvent)
    (server : StratumServer) :
    serveAll backend events server =
      attemptStratum backend (eventOps backend events server) server := by
  induction events generalizing server with
  | nil => rfl
  | cons event rest inductionHypothesis =>
      have later := inductionHypothesis (event.serve backend server).1
      rw [event.serve_state] at later
      unfold serveAll at later ⊢
      rw [List.foldl_cons, event.serve_state, later, eventOps,
        event.serve_state]
      unfold attemptStratum
      rw [List.foldl_append]

/-- The shares handed on are some of those offered, in order. -/
theorem handedOn_delivers
    {backend : Backend}
    (events : List StratumEvent)
    {server : StratumServer}
    (sound : ShareChain.Sound backend server.chain)
    (trusted : ShareChain.Trusted server.chain) :
    ∃ chosen : List StratumOffer,
      chosen.Sublist
        (offers backend (eventOps backend events server) server) ∧
      List.Forall₂ (Delivers backend) (handedOn backend events server)
        chosen := by
  induction events generalizing server with
  | nil => exact ⟨[], List.Sublist.refl _, .nil⟩
  | cons event rest inductionHypothesis =>
      obtain ⟨nextSound, nextTrusted⟩ := event.serve_sound sound trusted
      obtain ⟨chosen, part, delivers⟩ :=
        inductionHypothesis nextSound nextTrusted
      rw [handedOn, eventOps, StratumServer.offers_append, ← event.serve_state]
      cases handed : (event.serve backend server).2 with
      | none =>
          exact ⟨chosen, part.trans (List.sublist_append_right _ _), delivers⟩
      | some accepted =>
          obtain ⟨offer, offered, here⟩ := event.serve_delivers sound handed
          rw [offered]
          exact ⟨offer :: chosen, part.cons_cons offer, .cons here delivers⟩

/--
Whatever miners send to a started server, in any order over any connections, a nonce
of a job reaches the chain at most once, and what is handed on are offered shares
that the chain has connected.
-/
theorem serveAll_laws
    {backend : Backend}
    {server : StratumServer}
    (started : server.Started backend)
    (events : List StratumEvent) :
    ServiceLaws backend events server where
  refines := serveAll_eq events server
  chain := by
    rw [serveAll_eq]
    exact attemptStratum_chain _ _
  offeredOnce := (StratumServer.offers_nodup _ _).1
  delivered :=
    handedOn_delivers events started.chain.wellFormed.sound
      started.chain.wellFormed.trusted

/-- A submission of a nonce for the header of the sample work. -/
def sampleWorkRequest : StratumRequest where
  id := .integer 7
  method := textBytes "eth_submitWork"
  params :=
    [ textBytes "0x1"
    , hashToHex 5
    , hashToHex 0 ]
  worker := []

/-- A miner asks for work and submits the same nonce twice. -/
def sampleEvents : List StratumEvent :=
  sampleJobOps.map .call ++
    [ .request 1
        { id := .integer 6, method := textBytes "eth_getWork", params := []
          worker := [] } 1000
    , .request 1 sampleWorkRequest 1000
    , .request 1 sampleWorkRequest 1001 ]

/-- The first submission is handed on, the second is not. -/
theorem serveAll_laws_sample :
    (handedOn sampleBackend sampleEvents sampleStratum).map Prod.fst =
        [{ share := { sampleShare 1 1 1 1 with minerId := 1 }, blockCandidate := false }] ∧
      ServiceLaws sampleBackend sampleEvents sampleStratum :=
  ⟨by decide +kernel, serveAll_laws sampleStratum_started sampleEvents⟩

end ZanoP2pool
