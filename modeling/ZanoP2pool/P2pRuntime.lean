import ZanoP2pool.Foundation.Effect
import ZanoP2pool.P2pPeerScore

namespace ZanoP2pool

open Foundation

/-!
# Peers of the runtime

The peer table and the score book are guarded by different locks.  A step is one
locked section of a call, so that a run is an interleaving of such sections; a call
that stands between two of its sections is part of the state.
-/

/-- An entry of the peer table; the handle is the identity of the shared object. -/
structure Peer where
  handle : Nat
  nodeId : NodeId
  alive : Bool
  deriving Repr, DecidableEq

/-- A report that started a ban, before or after it collected the peers. -/
inductive BanReport where
  | penalized (nodeId : NodeId)
  | collected (bannedPeers : List Nat)
  deriving Repr, DecidableEq

/-- `adding` holds the calls of `add_peer` that have passed the ban check. -/
structure P2pRuntime where
  nodeId : NodeId
  maxPeers : Nat := 64
  peerScores : P2pPeerScoreBook := {}
  now : Nat := 0
  peers : List Peer := []
  nextHandle : Nat := 0
  adding : List NodeId := []
  reports : List BanReport := []

namespace P2pRuntime

def livePeers (runtime : P2pRuntime) : List Peer :=
  runtime.peers.filter Peer.alive

/-- The first section of `add_peer`: the local node id and bans are refused. -/
def checkPeer (runtime : P2pRuntime) (peerNodeId : NodeId) : P2pRuntime :=
  if peerNodeId = runtime.nodeId then
    runtime
  else
    let asked := runtime.peerScores.banned peerNodeId runtime.now
    if asked.1 then
      { runtime with peerScores := asked.2 }
    else
      { runtime with
        peerScores := asked.2
        adding := runtime.adding ++ [peerNodeId] }

/-- The section of `add_peer` under the lock of the peer table. -/
def insertPeer (runtime : P2pRuntime) (call : Nat) : P2pRuntime :=
  match runtime.adding[call]? with
  | none => runtime
  | some peerNodeId =>
      let returned := { runtime with adding := runtime.adding.eraseIdx call }
      if runtime.livePeers.any (fun existing =>
          existing.nodeId = peerNodeId) then
        returned
      else if runtime.livePeers.length ≥ runtime.maxPeers then
        returned
      else
        let peer : Peer :=
          { handle := runtime.nextHandle, nodeId := peerNodeId, alive := true }
        { returned with
          peers := runtime.peers ++ [peer]
          nextHandle := runtime.nextHandle + 1 }

/-- The first section of `report_peer_misbehavior`. -/
def penalizePeer
    (runtime : P2pRuntime)
    (peerNodeId : NodeId)
    (penalty : UInt32) :
    P2pRuntime :=
  let result := runtime.peerScores.penalize peerNodeId penalty runtime.now
  if result.1.banStarted then
    { runtime with
      peerScores := result.2
      reports := runtime.reports ++ [.penalized peerNodeId] }
  else
    { runtime with peerScores := result.2 }

/-- The section of `report_peer_misbehavior` under the lock of the peer table. -/
def collectBanned (runtime : P2pRuntime) (call : Nat) : P2pRuntime :=
  match runtime.reports[call]? with
  | some (.penalized peerNodeId) =>
      let bannedPeers :=
        (runtime.livePeers.filter fun peer => peer.nodeId = peerNodeId).map
          Peer.handle
      { runtime with reports := runtime.reports.set call (.collected bannedPeers) }
  | _ => runtime

def markDead (runtime : P2pRuntime) (handle : Nat) : P2pRuntime :=
  { runtime with
    peers := runtime.peers.map fun peer =>
      if peer.handle = handle then { peer with alive := false } else peer }

/-- A report marks its next peer dead, or returns. -/
def markBanned (runtime : P2pRuntime) (call : Nat) : P2pRuntime :=
  match runtime.reports[call]? with
  | some (.collected (handle :: bannedPeers)) =>
      { runtime.markDead handle with
        reports := runtime.reports.set call (.collected bannedPeers) }
  | some (.collected []) =>
      { runtime with reports := runtime.reports.eraseIdx call }
  | _ => runtime

def reapDeadPeers (runtime : P2pRuntime) : P2pRuntime :=
  { runtime with peers := runtime.livePeers }

end P2pRuntime

/-- One locked section of a call, the death of a peer or the passing of time. -/
inductive RuntimeStep where
  | wait (elapsed : Nat)
  | checkPeer (peerNodeId : NodeId)
  | insertPeer (call : Nat)
  | penalizePeer
      (peerNodeId : NodeId)
      (penalty : UInt32)
  | collectBanned (call : Nat)
  | markBanned (call : Nat)
  | peerDied (handle : Nat)
  | reapDeadPeers
  deriving Repr, DecidableEq

def RuntimeStep.run : RuntimeStep → P2pRuntime → P2pRuntime
  | wait elapsed, runtime => { runtime with now := runtime.now + elapsed }
  | checkPeer peerNodeId, runtime => runtime.checkPeer peerNodeId
  | insertPeer call, runtime => runtime.insertPeer call
  | penalizePeer peerNodeId penalty, runtime =>
      runtime.penalizePeer peerNodeId penalty
  | collectBanned call, runtime => runtime.collectBanned call
  | markBanned call, runtime => runtime.markBanned call
  | peerDied handle, runtime => runtime.markDead handle
  | reapDeadPeers, runtime => runtime.reapDeadPeers

def runRuntime
    (steps : List RuntimeStep)
    (runtime : P2pRuntime) :
    P2pRuntime :=
  steps.foldl (fun reached step => step.run reached) runtime

/-- A runtime with its configured score book and no peers. -/
def P2pRuntime.create
    (nodeId : NodeId)
    (maxPeers : Nat)
    (peerScore : P2pPeerScoreConfig) :
    Except Exception P2pRuntime := do
  let peerScores ← P2pPeerScoreBook.create peerScore
  if maxPeers = 0 then
    throw (.runtimeError "P2P max peers must be nonzero")
  else
    return { nodeId, maxPeers, peerScores }

namespace P2pRuntime

/-- Live peers have distinct foreign node ids and stay within the bound. -/
structure Admissible (runtime : P2pRuntime) : Prop where
  distinct : (runtime.livePeers.map Peer.nodeId).Nodup
  bounded : runtime.livePeers.length ≤ runtime.maxPeers
  foreign : ∀ peer ∈ runtime.livePeers, peer.nodeId ≠ runtime.nodeId
  adding : ∀ peerNodeId ∈ runtime.adding, peerNodeId ≠ runtime.nodeId

section Live

variable {runtime : P2pRuntime}

/-- Marking a peer dead takes it out of the live ones. -/
theorem livePeers_markDead
    (handle : Nat) :
    (runtime.markDead handle).livePeers =
      runtime.livePeers.filter fun peer => peer.handle ≠ handle := by
  unfold livePeers markDead
  simp only
  induction runtime.peers with
  | nil => rfl
  | cons peer rest inductionHypothesis =>
      rw [List.map_cons]
      by_cases isTarget : peer.handle = handle
      · rw [if_pos isTarget, List.filter_cons_of_neg (by simp),
          inductionHypothesis]
        by_cases alive : peer.alive = true
        · rw [List.filter_cons_of_pos alive,
            List.filter_cons_of_neg (by simp [isTarget])]
        · rw [List.filter_cons_of_neg alive]
      · rw [if_neg isTarget]
        by_cases alive : peer.alive = true
        · rw [List.filter_cons_of_pos alive, List.filter_cons_of_pos alive,
            List.filter_cons_of_pos (by simp [isTarget]),
            inductionHypothesis]
        · rw [List.filter_cons_of_neg alive, List.filter_cons_of_neg alive,
            inductionHypothesis]

theorem livePeers_reapDeadPeers :
    runtime.reapDeadPeers.livePeers = runtime.livePeers := by
  unfold reapDeadPeers livePeers
  simp only
  rw [List.filter_filter]
  simp

/-- Dropping live peers or calls keeps the peers admissible. -/
theorem Admissible.shrink
    {next : P2pRuntime}
    (admissible : runtime.Admissible)
    (sameId : next.nodeId = runtime.nodeId)
    (sameBound : next.maxPeers = runtime.maxPeers)
    (fewer : next.livePeers.Sublist runtime.livePeers)
    (calls : ∀ peerNodeId ∈ next.adding, peerNodeId ∈ runtime.adding) :
    next.Admissible where
  distinct := admissible.distinct.sublist (fewer.map _)
  bounded := by
    rw [sameBound]
    exact le_trans fewer.length_le admissible.bounded
  foreign := by
    intro peer live
    rw [sameId]
    exact admissible.foreign peer (fewer.subset live)
  adding := by
    intro peerNodeId member
    rw [sameId]
    exact admissible.adding peerNodeId (calls peerNodeId member)

/-- No live peer of this node id. -/
theorem not_mem_liveIds
    {peerNodeId : NodeId}
    (single :
      ¬ runtime.livePeers.any (fun existing =>
        existing.nodeId = peerNodeId) = true) :
    peerNodeId ∉ runtime.livePeers.map Peer.nodeId := by
  intro member
  obtain ⟨existing, live, same⟩ := List.mem_map.mp member
  exact single (List.any_eq_true.mpr ⟨existing, live, by simp [same]⟩)

/-- The call is answered without a new peer, or the peer joins the live ones. -/
theorem insertPeer_spec
    (call : Nat) :
    let next := runtime.insertPeer call
    next.nodeId = runtime.nodeId ∧ next.maxPeers = runtime.maxPeers ∧
      next.peerScores = runtime.peerScores ∧ next.now = runtime.now ∧
      next.reports = runtime.reports ∧
      (∀ peerNodeId ∈ next.adding, peerNodeId ∈ runtime.adding) ∧
      (next.livePeers = runtime.livePeers ∨
        ∃ peer,
          next.livePeers = runtime.livePeers ++ [peer] ∧
            peer.nodeId ∈ runtime.adding ∧
            peer.nodeId ∉ runtime.livePeers.map Peer.nodeId ∧
            runtime.livePeers.length < runtime.maxPeers) := by
  unfold insertPeer
  cases found : runtime.adding[call]? with
  | none => exact ⟨rfl, rfl, rfl, rfl, rfl, fun _ member => member, .inl rfl⟩
  | some peerNodeId =>
      have isCall : peerNodeId ∈ runtime.adding := List.mem_of_getElem? found
      have fewer :
          ∀ other ∈ runtime.adding.eraseIdx call, other ∈ runtime.adding :=
        fun other member => List.mem_of_mem_eraseIdx member
      simp only
      by_cases duplicate :
          runtime.livePeers.any (fun existing =>
            existing.nodeId = peerNodeId) = true
      · rw [if_pos duplicate]
        exact ⟨rfl, rfl, rfl, rfl, rfl, fewer, .inl rfl⟩
      rw [if_neg duplicate]
      by_cases full : runtime.livePeers.length ≥ runtime.maxPeers
      · rw [if_pos full]
        exact ⟨rfl, rfl, rfl, rfl, rfl, fewer, .inl rfl⟩
      · rw [if_neg full]
        refine ⟨rfl, rfl, rfl, rfl, rfl, fewer, .inr ?_⟩
        refine ⟨⟨runtime.nextHandle, peerNodeId, true⟩, ?_, isCall,
          not_mem_liveIds duplicate, not_le.mp full⟩
        unfold livePeers
        simp only
        rw [List.filter_append]
        rfl

theorem insertPeer_admissible
    (admissible : runtime.Admissible)
    (call : Nat) :
    (runtime.insertPeer call).Admissible := by
  obtain ⟨sameId, sameBound, _, _, _, calls, unchanged | joined⟩ :=
    runtime.insertPeer_spec call
  · refine admissible.shrink sameId sameBound ?_ calls
    rw [unchanged]
  · obtain ⟨peer, live, isCall, single, room⟩ := joined
    constructor
    case distinct =>
      rw [live, List.map_append, List.nodup_append]
      refine ⟨admissible.distinct, List.nodup_singleton _, ?_⟩
      rintro other inLive _ last rfl
      obtain rfl := List.mem_singleton.mp last
      exact single inLive
    case bounded =>
      rw [live, sameBound, List.length_append, List.length_singleton]
      exact room
    case foreign =>
      intro other member
      rw [live] at member
      rw [sameId]
      rcases List.mem_append.mp member with before | last
      · exact admissible.foreign other before
      · rw [List.mem_singleton.mp last]
        exact admissible.adding peer.nodeId isCall
    case adding =>
      intro other member
      rw [sameId]
      exact admissible.adding other (calls other member)

theorem checkPeer_admissible
    (admissible : runtime.Admissible)
    (peerNodeId : NodeId) :
    (runtime.checkPeer peerNodeId).Admissible := by
  unfold checkPeer
  by_cases own : peerNodeId = runtime.nodeId
  · rw [if_pos own]
    exact admissible
  rw [if_neg own]
  simp only
  split_ifs with isBanned
  · exact ⟨admissible.distinct, admissible.bounded, admissible.foreign,
      admissible.adding⟩
  · refine ⟨admissible.distinct, admissible.bounded, admissible.foreign, ?_⟩
    intro other member
    rcases List.mem_append.mp member with before | last
    · exact admissible.adding other before
    · rw [List.mem_singleton.mp last]
      exact own

/-- Marking dead only drops live peers. -/
theorem markBanned_fewer
    (call : Nat) :
    (runtime.markBanned call).livePeers.Sublist runtime.livePeers := by
  unfold markBanned
  split
  · change ((runtime.markDead _).livePeers).Sublist _
    rw [livePeers_markDead]
    exact List.filter_sublist
  · exact List.Sublist.refl _
  · exact List.Sublist.refl _

/-- Every step keeps the live peers distinct, foreign and within the bound. -/
theorem Admissible.step
    (admissible : runtime.Admissible)
    (step : RuntimeStep) :
    (step.run runtime).Admissible := by
  have kept (member : NodeId) (inside : member ∈ runtime.adding) :
      member ∈ runtime.adding := inside
  cases step with
  | wait elapsed =>
      exact admissible.shrink rfl rfl (List.Sublist.refl _) kept
  | checkPeer peerNodeId => exact checkPeer_admissible admissible peerNodeId
  | insertPeer call => exact insertPeer_admissible admissible call
  | penalizePeer peerNodeId penalty =>
      simp only [RuntimeStep.run, penalizePeer]
      split_ifs <;>
        exact admissible.shrink rfl rfl (List.Sublist.refl _) kept
  | collectBanned call =>
      simp only [RuntimeStep.run, collectBanned]
      split <;> exact admissible.shrink rfl rfl (List.Sublist.refl _) kept
  | markBanned call =>
      have fewer := runtime.markBanned_fewer call
      simp only [RuntimeStep.run]
      refine admissible.shrink ?_ ?_ fewer ?_ <;> unfold markBanned <;>
        split <;> first | rfl | exact kept
  | peerDied handle =>
      refine admissible.shrink rfl rfl ?_ kept
      change ((runtime.markDead handle).livePeers).Sublist _
      rw [livePeers_markDead]
      exact List.filter_sublist
  | reapDeadPeers =>
      refine admissible.shrink rfl rfl ?_ kept
      change (runtime.reapDeadPeers.livePeers).Sublist _
      rw [livePeers_reapDeadPeers]

end Live

end P2pRuntime

/-- The report is about to mark this peer dead. -/
def BanReport.Covers (report : BanReport) (peer : Peer) : Prop :=
  match report with
  | .penalized nodeId => peer.nodeId = nodeId
  | .collected bannedPeers => peer.handle ∈ bannedPeers

namespace P2pRuntime

/-- Banned live peers are covered by a report, and no banned peer is being added. -/
structure Enforced (runtime : P2pRuntime) : Prop where
  adding :
    ∀ peerNodeId ∈ runtime.adding,
      ¬ runtime.peerScores.Banned peerNodeId runtime.now
  covered :
    ∀ peer ∈ runtime.livePeers,
      runtime.peerScores.Banned peer.nodeId runtime.now →
        ∃ report ∈ runtime.reports, report.Covers peer

/-- No ban starts while its node id is between ban check and insertion. -/
def Orderly (runtime : P2pRuntime) (step : RuntimeStep) : Prop :=
  match step with
  | .penalizePeer peerNodeId penalty =>
      peerNodeId ∈ runtime.adding →
        ¬ runtime.peerScores.ReachesThreshold peerNodeId penalty runtime.now
  | _ => True

section Bans

variable {runtime : P2pRuntime}

/-- A step that starts no ban and drops only peers, calls and no report. -/
theorem Enforced.shrink
    {next : P2pRuntime}
    (enforced : runtime.Enforced)
    (bans :
      ∀ peerNodeId,
        next.peerScores.Banned peerNodeId next.now →
          runtime.peerScores.Banned peerNodeId runtime.now)
    (fewer : ∀ peer ∈ next.livePeers, peer ∈ runtime.livePeers)
    (calls : ∀ peerNodeId ∈ next.adding, peerNodeId ∈ runtime.adding)
    (reports :
      ∀ peer ∈ next.livePeers,
        (∃ report ∈ runtime.reports, report.Covers peer) →
          ∃ report ∈ next.reports, report.Covers peer) :
    next.Enforced where
  adding := by
    intro peerNodeId member isBanned
    exact enforced.adding peerNodeId (calls peerNodeId member)
      (bans peerNodeId isBanned)
  covered := by
    intro peer live isBanned
    exact reports peer live
      (enforced.covered peer (fewer peer live) (bans peer.nodeId isBanned))

theorem checkPeer_enforced
    (enforced : runtime.Enforced)
    (peerNodeId : NodeId) :
    (runtime.checkPeer peerNodeId).Enforced := by
  obtain ⟨answer, same⟩ :=
    @P2pPeerScoreBook.banned_spec runtime.peerScores peerNodeId runtime.now
  unfold checkPeer
  by_cases own : peerNodeId = runtime.nodeId
  · rw [if_pos own]
    exact enforced
  rw [if_neg own]
  simp only
  by_cases isBanned :
      (runtime.peerScores.banned peerNodeId runtime.now).1 = true
  · rw [if_pos isBanned]
    exact enforced.shrink (fun other => (same other).mp)
      (fun _ live => live) (fun _ member => member)
      (fun _ _ covered => covered)
  · rw [if_neg isBanned]
    constructor
    case adding =>
      intro other member banned
      have before := (same other).mp banned
      rcases List.mem_append.mp member with call | last
      · exact enforced.adding other call before
      · rw [List.mem_singleton.mp last] at before
        exact isBanned (answer.mpr before)
    case covered =>
      intro peer live banned
      exact enforced.covered peer live ((same peer.nodeId).mp banned)

theorem insertPeer_enforced
    (enforced : runtime.Enforced)
    (call : Nat) :
    (runtime.insertPeer call).Enforced := by
  obtain ⟨_, _, scores, now, reports, calls, joined⟩ :=
    runtime.insertPeer_spec call
  constructor
  case adding =>
    intro other member
    rw [scores, now]
    exact enforced.adding other (calls other member)
  case covered =>
    intro peer live banned
    rw [scores, now] at banned
    rw [reports]
    rcases joined with unchanged | ⟨joining, appended, isCall, _⟩
    · rw [unchanged] at live
      exact enforced.covered peer live banned
    · rw [appended] at live
      rcases List.mem_append.mp live with before | last
      · exact enforced.covered peer before banned
      · rw [List.mem_singleton.mp last] at banned
        exact absurd banned (enforced.adding joining.nodeId isCall)

theorem penalizePeer_enforced
    (enforced : runtime.Enforced)
    {peerNodeId : NodeId}
    {penalty : UInt32}
    (orderly : runtime.Orderly (.penalizePeer peerNodeId penalty)) :
    (runtime.penalizePeer peerNodeId penalty).Enforced := by
  obtain ⟨starts, bans⟩ :=
    @P2pPeerScoreBook.penalize_spec runtime.peerScores peerNodeId runtime.now
      penalty
  unfold penalizePeer
  simp only
  by_cases started :
      (runtime.peerScores.penalize peerNodeId penalty
        runtime.now).1.banStarted = true
  · rw [if_pos started]
    constructor
    case adding =>
      intro other member banned
      rcases bans other banned with before | ⟨rfl, reaches⟩
      · exact enforced.adding other member before
      · exact orderly member reaches
    case covered =>
      intro peer live banned
      rcases bans peer.nodeId banned with before | ⟨same, _⟩
      · obtain ⟨report, member, covers⟩ :=
          enforced.covered peer live before
        exact ⟨report, List.mem_append_left _ member, covers⟩
      · exact ⟨.penalized peerNodeId,
          List.mem_append_right _ (List.mem_singleton_self _), same⟩
  · rw [if_neg started]
    refine enforced.shrink ?_ (fun _ live => live) (fun _ member => member)
      (fun _ _ covered => covered)
    intro other banned
    rcases bans other banned with before | ⟨_, reaches⟩
    · exact before
    · exact absurd (starts.mpr reaches) started

/-- Replacing a report that covers a peer by one that still does. -/
theorem covered_set
    {peer : Peer}
    {call : Nat}
    {old new : BanReport}
    (found : runtime.reports[call]? = some old)
    (still : old.Covers peer → new.Covers peer)
    (covered : ∃ report ∈ runtime.reports, report.Covers peer) :
    ∃ report ∈ runtime.reports.set call new, report.Covers peer := by
  obtain ⟨report, member, covers⟩ := covered
  obtain ⟨position, isAt⟩ := List.mem_iff_getElem?.mp member
  by_cases same : position = call
  · subst same
    rw [found] at isAt
    cases isAt
    refine ⟨new, List.mem_iff_getElem?.mpr ⟨position, ?_⟩, still covers⟩
    rw [List.getElem?_set_self (List.getElem?_eq_some_iff.mp found).1]
  · refine ⟨report, List.mem_iff_getElem?.mpr ⟨position, ?_⟩, covers⟩
    rw [List.getElem?_set_ne (Ne.symm same)]
    exact isAt

theorem collectBanned_enforced
    (enforced : runtime.Enforced)
    (call : Nat) :
    (runtime.collectBanned call).Enforced := by
  unfold collectBanned
  split
  next peerNodeId found =>
    refine enforced.shrink (fun _ banned => banned) (fun _ live => live)
      (fun _ member => member) ?_
    intro peer live covered
    refine covered_set found ?_ covered
    intro same
    refine List.mem_map_of_mem (List.mem_filter.mpr ⟨live, ?_⟩)
    exact decide_eq_true same
  next => exact enforced

theorem markBanned_enforced
    (enforced : runtime.Enforced)
    (call : Nat) :
    (runtime.markBanned call).Enforced := by
  have fewer := (runtime.markBanned_fewer call).subset
  unfold markBanned at fewer ⊢
  split at fewer
  next handle bannedPeers found =>
    refine enforced.shrink (fun _ banned => banned)
      (fun _ live => fewer live) (fun _ member => member) ?_
    intro peer live covered
    refine covered_set found ?_ covered
    intro inside
    -- the peer is still alive, so it is not the one marked now
    have kept : peer ∈ (runtime.markDead handle).livePeers := live
    rw [livePeers_markDead] at kept
    have other : peer.handle ≠ handle := by
      simpa using (List.mem_filter.mp kept).2
    exact (List.mem_cons.mp inside).resolve_left other
  next found =>
    refine enforced.shrink (fun _ banned => banned) (fun _ live => live)
      (fun _ member => member) ?_
    rintro peer live ⟨report, member, covers⟩
    obtain ⟨position, isAt⟩ := List.mem_iff_getElem?.mp member
    have different : position ≠ call := by
      rintro rfl
      rw [found] at isAt
      cases isAt
      cases covers
    refine ⟨report, ?_, covers⟩
    rw [List.mem_eraseIdx_iff_getElem?]
    exact ⟨position, different, isAt⟩
  next => exact enforced

/-- Every step that meets the condition enforces the bans. -/
theorem Enforced.step
    (enforced : runtime.Enforced)
    {step : RuntimeStep}
    (orderly : runtime.Orderly step) :
    (step.run runtime).Enforced := by
  cases step with
  | wait elapsed =>
      refine enforced.shrink ?_ (fun _ live => live) (fun _ member => member)
        (fun _ _ covered => covered)
      exact fun other banned => banned.earlier (Nat.le_add_right _ _)
  | checkPeer peerNodeId => exact checkPeer_enforced enforced peerNodeId
  | insertPeer call => exact insertPeer_enforced enforced call
  | penalizePeer peerNodeId penalty =>
      exact penalizePeer_enforced enforced orderly
  | collectBanned call => exact collectBanned_enforced enforced call
  | markBanned call => exact markBanned_enforced enforced call
  | peerDied handle =>
      refine enforced.shrink (fun _ banned => banned) ?_
        (fun _ member => member) (fun _ _ covered => covered)
      intro peer live
      have kept : peer ∈ (runtime.markDead handle).livePeers := live
      rw [livePeers_markDead] at kept
      exact (List.mem_filter.mp kept).1
  | reapDeadPeers =>
      refine enforced.shrink (fun _ banned => banned) ?_
        (fun _ member => member) (fun _ _ covered => covered)
      intro peer live
      have kept : peer ∈ runtime.reapDeadPeers.livePeers := live
      rw [livePeers_reapDeadPeers] at kept
      exact kept

end Bans

/-- Every step of the run meets the condition in the state before it. -/
def OrderlyRun (runtime : P2pRuntime) : List RuntimeStep → Prop
  | [] => True
  | step :: rest => runtime.Orderly step ∧ (step.run runtime).OrderlyRun rest

section Runs

variable {runtime : P2pRuntime}

theorem Admissible.run
    (admissible : runtime.Admissible)
    (steps : List RuntimeStep) :
    (runRuntime steps runtime).Admissible := by
  induction steps generalizing runtime with
  | nil => exact admissible
  | cons step rest inductionHypothesis =>
      exact inductionHypothesis (admissible.step step)

theorem Enforced.run
    (enforced : runtime.Enforced)
    {steps : List RuntimeStep}
    (orderly : runtime.OrderlyRun steps) :
    (runRuntime steps runtime).Enforced := by
  induction steps generalizing runtime with
  | nil => exact enforced
  | cons step rest inductionHypothesis =>
      exact inductionHypothesis (enforced.step orderly.1) orderly.2

/-- A runtime as built has no peers and no calls. -/
theorem start_of_create
    {nodeId : NodeId}
    {maxPeers : Nat}
    {peerScore : P2pPeerScoreConfig}
    (built : P2pRuntime.create nodeId maxPeers peerScore = .ok runtime) :
    runtime.Admissible ∧ runtime.Enforced := by
  unfold P2pRuntime.create at built
  obtain ⟨scores, _, finished⟩ := except_bind_eq_ok.mp built
  by_cases none : maxPeers = 0
  · rw [if_pos none] at finished
    cases finished
  rw [if_neg none] at finished
  cases finished
  refine ⟨⟨List.nodup_nil, Nat.zero_le _, ?_, ?_⟩, ⟨?_, ?_⟩⟩ <;>
    · intro _ member
      cases member

end Runs

end P2pRuntime

/-- What the peer table promises. -/
structure P2pRuntime.Guarded (runtime : P2pRuntime) : Prop where
  distinct : (runtime.livePeers.map Peer.nodeId).Nodup
  bounded : runtime.livePeers.length ≤ runtime.maxPeers
  foreign : ∀ peer ∈ runtime.livePeers, peer.nodeId ≠ runtime.nodeId
  unbanned :
    runtime.reports = [] →
      ∀ peer ∈ runtime.livePeers,
        ¬ runtime.peerScores.Banned peer.nodeId runtime.now

/--
Live peers are distinct, foreign and bounded in every run.  In a run in which no
ban starts between the ban check and the insertion of its node id, no live peer is
banned while no report is in progress.
-/
theorem livePeers_guarded
    {nodeId : NodeId}
    {maxPeers : Nat}
    {peerScore : P2pPeerScoreConfig}
    {start : P2pRuntime}
    (built : P2pRuntime.create nodeId maxPeers peerScore = .ok start)
    (steps : List RuntimeStep) :
    let reached := runRuntime steps start
    (start.OrderlyRun steps → reached.Guarded) ∧
      (reached.livePeers.map Peer.nodeId).Nodup ∧
      reached.livePeers.length ≤ reached.maxPeers ∧
      ∀ peer ∈ reached.livePeers, peer.nodeId ≠ reached.nodeId := by
  obtain ⟨startAdmissible, startEnforced⟩ := P2pRuntime.start_of_create built
  have admissible := startAdmissible.run steps
  refine ⟨?_, admissible.distinct, admissible.bounded, admissible.foreign⟩
  intro orderly
  have enforced := startEnforced.run orderly
  refine ⟨admissible.distinct, admissible.bounded, admissible.foreign, ?_⟩
  intro idle peer live banned
  obtain ⟨report, member, _⟩ := enforced.covered peer live banned
  rw [idle] at member
  cases member

/-- A peer is admitted, reported and marked dead. -/
theorem reportedPeer_guarded :
    ∃ start,
      P2pRuntime.create 1 64 {} = .ok start ∧
        (runRuntime
          [.checkPeer 7, .insertPeer 0, .penalizePeer 7 100,
            .collectBanned 0, .markBanned 0, .markBanned 0] start).Guarded := by
  refine ⟨_, rfl, ?_⟩
  refine (@livePeers_guarded 1 64 {} _ rfl _).1 ?_
  refine ⟨trivial, trivial, ?_, trivial, trivial, trivial, trivial⟩
  intro member
  exact absurd member (by decide +kernel)

/-- A ban that starts between check and insertion leaves a banned live peer. -/
theorem bannedPeer_staysLive :
    ∃ start,
      P2pRuntime.create 1 64 {} = .ok start ∧
        ¬ (runRuntime
          [.checkPeer 7, .penalizePeer 7 100, .collectBanned 0,
            .markBanned 0, .insertPeer 0] start).Guarded := by
  refine ⟨_, rfl, ?_⟩
  intro guarded
  refine guarded.unbanned (by decide +kernel)
    { handle := 0, nodeId := 7, alive := true } (by decide +kernel) ?_
  exact ⟨{ score := 100, bannedUntil := some 300000 }, 300000,
    by decide +kernel, rfl, by decide +kernel⟩

end ZanoP2pool
