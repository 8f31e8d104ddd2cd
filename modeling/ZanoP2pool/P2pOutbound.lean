import ZanoP2pool.P2pRuntime

namespace ZanoP2pool

/-!
# Outbound connections

A node keeps a target for every endpoint it was told to connect to and dials it
again after it fails or dies, at growing intervals and never while the node behind
it is banned.  A step is one locked section of `connect_peer` or `reconnect_loop`;
what the dialing in between brings is part of the next step.
-/

structure P2pEndpoint where
  host : String
  port : UInt16
  deriving Repr, DecidableEq

/-- Twice the delay, up to the maximum. -/
def nextBackoff (current maximum : Nat) : Nat :=
  if current ≥ maximum then
    maximum
  else if current > maximum / 2 then
    maximum
  else
    min (current * 2) maximum

/-- The call that an attempt in progress belongs to. -/
inductive AttemptOwner where
  | connectPeer
  | reconnectLoop
  deriving Repr, DecidableEq

/-- No time of a next attempt stands for the greatest one. -/
structure OutboundTarget where
  endpoint : P2pEndpoint
  peer : Option Peer := none
  nodeId : Option NodeId := none
  backoff : Nat
  nextAttempt : Option Nat
  attemptInProgress : Option AttemptOwner := none
  deriving Repr, DecidableEq

/-- The targets of a node, and when it dialed which endpoint, the last one first. -/
structure P2pOutbound where
  outboundReconnectInitial : Nat
  outboundReconnectMax : Nat
  peerScores : P2pPeerScoreBook := {}
  now : Nat := 0
  outboundTargets : List OutboundTarget := []
  dials : List (P2pEndpoint × Nat) := []

/-- The checks of the runtime at its start. -/
def P2pOutbound.create
    (outboundReconnectInitial outboundReconnectMax : Nat)
    (peerScores : P2pPeerScoreBook) :
    Except Exception P2pOutbound :=
  if outboundReconnectInitial = 0 then
    throw (.runtimeError
      "P2P outbound reconnect initial delay must be positive")
  else if outboundReconnectMax < outboundReconnectInitial then
    throw (.runtimeError
      "P2P outbound reconnect maximum delay must be >= initial delay")
  else
    return { outboundReconnectInitial, outboundReconnectMax, peerScores }

namespace P2pOutbound

/-- The first section of `connect_peer`, which then dials. -/
def connectPeer (endpoint : P2pEndpoint) (outbound : P2pOutbound) :
    P2pOutbound :=
  if outbound.outboundTargets.any (fun existing =>
      existing.endpoint = endpoint) then
    outbound
  else
    { outbound with
      outboundTargets := outbound.outboundTargets ++
        [{ endpoint
           backoff := outbound.outboundReconnectInitial
           nextAttempt := some outbound.now
           attemptInProgress := some .connectPeer }]
      dials := (endpoint, outbound.now) :: outbound.dials }

/-- A target whose attempt brought a peer. -/
def attached (peer : Peer) (outbound : P2pOutbound) (target : OutboundTarget) :
    OutboundTarget :=
  if target.attemptInProgress.isSome then
    { target with
      peer := some peer
      nodeId := some peer.nodeId
      attemptInProgress := none
      backoff := outbound.outboundReconnectInitial
      nextAttempt := none }
  else
    target

/-- A target whose attempt failed. -/
def attemptFailed (outbound : P2pOutbound) (target : OutboundTarget) :
    OutboundTarget :=
  match target.attemptInProgress with
  | some .connectPeer =>
      { target with
        attemptInProgress := none
        nextAttempt := some (outbound.now + outbound.outboundReconnectInitial)
        backoff := nextBackoff outbound.outboundReconnectInitial
          outbound.outboundReconnectMax }
  | some .reconnectLoop =>
      { target with
        attemptInProgress := none
        nextAttempt := some (outbound.now + target.backoff)
        backoff := nextBackoff target.backoff outbound.outboundReconnectMax }
  | none => target

def peerDied (handle : Nat) (target : OutboundTarget) : OutboundTarget :=
  { target with
    peer := target.peer.map fun peer =>
      if peer.handle = handle then { peer with alive := false } else peer }

/-- The loop notices that the peer of a target is dead. -/
def noticed (outbound : P2pOutbound) (target : OutboundTarget) :
    OutboundTarget :=
  match target.peer with
  | some peer =>
      if peer.alive then
        target
      else
        { target with
          nodeId := some peer.nodeId
          peer := none
          nextAttempt := some (outbound.now + outbound.outboundReconnectInitial)
          backoff := nextBackoff outbound.outboundReconnectInitial
            outbound.outboundReconnectMax }
  | none => target

/-- The end of the ban of a target without a peer. -/
def targetBan (target : OutboundTarget) (now : Nat) (book : P2pPeerScoreBook) :
    Option Nat × P2pPeerScoreBook :=
  match target.peer, target.nodeId with
  | none, some nodeId => book.bannedUntil nodeId now
  | _, _ => (none, book)

/-- The target waits for nothing but its time, which has come. -/
def Due (target : OutboundTarget) (now : Nat) : Prop :=
  target.peer = none ∧ target.attemptInProgress = none ∧
    ∃ due ∈ target.nextAttempt, due ≤ now

instance instDecidableDue (target : OutboundTarget) (now : Nat) :
    Decidable (Due target now) :=
  inferInstanceAs (Decidable (_ ∧ _ ∧ _))

/-- One pass of the loop over the targets; it ends at the first one to dial. -/
def scan (outbound : P2pOutbound) :
    List OutboundTarget → P2pPeerScoreBook →
      List OutboundTarget × P2pPeerScoreBook × Option P2pEndpoint
  | [], book => ([], book, none)
  | candidate :: rest, book =>
      let target := noticed outbound candidate
      match targetBan target outbound.now book with
      | (some bannedUntil, asked) =>
          let later := scan outbound rest asked
          ({ target with nextAttempt := some bannedUntil } :: later.1, later.2)
      | (none, asked) =>
          if Due target outbound.now then
            ({ target with attemptInProgress := some .reconnectLoop } :: rest,
              asked, some target.endpoint)
          else
            let later := scan outbound rest asked
            (target :: later.1, later.2)

/-- The locked section of `reconnect_loop`; the loop dials one target at a time. -/
def reconnectLoop (outbound : P2pOutbound) : P2pOutbound :=
  if outbound.outboundTargets.any (fun target =>
      target.attemptInProgress = some .reconnectLoop) then
    outbound
  else
    let scanned := scan outbound outbound.outboundTargets outbound.peerScores
    { outbound with
      outboundTargets := scanned.1
      peerScores := scanned.2.1
      dials := scanned.2.2.toList.map (·, outbound.now) ++ outbound.dials }

/-- The target of an endpoint changes. -/
def update
    (endpoint : P2pEndpoint)
    (change : OutboundTarget → OutboundTarget)
    (outbound : P2pOutbound) :
    P2pOutbound :=
  { outbound with
    outboundTargets := outbound.outboundTargets.map fun target =>
      if target.endpoint = endpoint then change target else target }

end P2pOutbound

inductive OutboundStep where
  | wait (elapsed : Nat)
  | connectPeer (endpoint : P2pEndpoint)
  | attached (endpoint : P2pEndpoint) (peer : Peer)
  | attemptFailed (endpoint : P2pEndpoint)
  | peerDied (handle : Nat)
  | penalize (nodeId : NodeId) (penalty : UInt32)
  | reconnectLoop
  deriving Repr, DecidableEq

def OutboundStep.run (outbound : P2pOutbound) : OutboundStep → P2pOutbound
  | wait elapsed => { outbound with now := outbound.now + elapsed }
  | connectPeer endpoint => outbound.connectPeer endpoint
  | attached endpoint peer =>
      outbound.update endpoint (P2pOutbound.attached peer outbound)
  | attemptFailed endpoint =>
      outbound.update endpoint outbound.attemptFailed
  | peerDied handle =>
      { outbound with
        outboundTargets :=
          outbound.outboundTargets.map (P2pOutbound.peerDied handle) }
  | penalize nodeId penalty =>
      { outbound with
        peerScores :=
          (outbound.peerScores.penalize nodeId penalty outbound.now).2 }
  | reconnectLoop => outbound.reconnectLoop

def runOutbound (steps : List OutboundStep) (outbound : P2pOutbound) :
    P2pOutbound :=
  steps.foldl OutboundStep.run outbound

/-- The delay doubles until it reaches the maximum. -/
theorem nextBackoff_eq (current maximum : Nat) :
    nextBackoff current maximum = min (current * 2) maximum := by
  unfold nextBackoff
  split_ifs <;> omega

namespace P2pOutbound

/-- The delay after so many attempts in a row that failed. -/
def delayAfter (outbound : P2pOutbound) (failures : Nat) : Nat :=
  min (outbound.outboundReconnectInitial * 2 ^ failures)
    outbound.outboundReconnectMax

/-- A target is idle, connected or being dialed, and keeps its distance. -/
structure TargetSound
    (gap : Nat)
    (outbound : P2pOutbound)
    (target : OutboundTarget) :
    Prop where
  alone : target.attemptInProgress ≠ none → target.peer = none
  doubled : ∃ failures, target.backoff = outbound.delayAfter failures
  spaced :
    target.peer = none → target.attemptInProgress = none →
      ∃ due,
        target.nextAttempt = some due ∧
          ∀ dial ∈ outbound.dials, dial.1 = target.endpoint →
            dial.2 + gap ≤ due

/-- Endpoints are distinct, and what was dialed was dialed at a distance. -/
structure Orderly (gap : Nat) (outbound : P2pOutbound) : Prop where
  close : gap ≤ outbound.outboundReconnectInitial
  delays : outbound.outboundReconnectInitial ≤ outbound.outboundReconnectMax
  distinct : (outbound.outboundTargets.map OutboundTarget.endpoint).Nodup
  known :
    ∀ dial ∈ outbound.dials,
      dial.1 ∈ outbound.outboundTargets.map OutboundTarget.endpoint ∧
        dial.2 ≤ outbound.now
  spaced :
    outbound.dials.Pairwise fun later earlier =>
      later.1 = earlier.1 → earlier.2 + gap ≤ later.2
  sound :
    ∀ target ∈ outbound.outboundTargets, outbound.TargetSound gap target

/-- No node is banned now or later. -/
def NeverBans (book : P2pPeerScoreBook) : Prop :=
  ∀ nodeId now, book.bannedUntil nodeId now = (none, book)

section Targets

variable {gap : Nat} {outbound : P2pOutbound} {target : OutboundTarget}

theorem nextBackoff_delayAfter (failures : Nat) :
    nextBackoff (outbound.delayAfter failures) outbound.outboundReconnectMax =
      outbound.delayAfter (failures + 1) := by
  rw [nextBackoff_eq, delayAfter, delayAfter, pow_succ, ← mul_assoc]
  omega

theorem Orderly.delayAfter_zero (orderly : outbound.Orderly gap) :
    outbound.delayAfter 0 = outbound.outboundReconnectInitial := by
  rw [delayAfter, pow_zero, mul_one, min_eq_left orderly.delays]

/-- The first failure doubles the initial delay. -/
theorem Orderly.nextBackoff_initial (orderly : outbound.Orderly gap) :
    nextBackoff outbound.outboundReconnectInitial
        outbound.outboundReconnectMax =
      outbound.delayAfter 1 := by
  rw [← nextBackoff_delayAfter, orderly.delayAfter_zero]

theorem Orderly.initial_le_delayAfter
    (orderly : outbound.Orderly gap)
    (failures : Nat) :
    outbound.outboundReconnectInitial ≤ outbound.delayAfter failures :=
  le_min (Nat.le_mul_of_pos_right _ (Nat.two_pow_pos failures)) orderly.delays

/-- After a delay from now on, a target is at a distance from every dial. -/
theorem Orderly.later
    (orderly : outbound.Orderly gap)
    {delay : Nat}
    (atLeast : outbound.outboundReconnectInitial ≤ delay) :
    ∀ dial ∈ outbound.dials, dial.1 = target.endpoint →
      dial.2 + gap ≤ outbound.now + delay := by
  intro dial member _
  have past := (orderly.known dial member).2
  have close := orderly.close
  omega

theorem TargetSound.attached
    (sound : outbound.TargetSound gap target)
    (orderly : outbound.Orderly gap)
    (peer : Peer) :
    outbound.TargetSound gap (P2pOutbound.attached peer outbound target) := by
  unfold P2pOutbound.attached
  split_ifs
  · exact {
      alone := fun busy => absurd rfl busy
      doubled := ⟨0, orderly.delayAfter_zero.symm⟩
      spaced := by rintro ⟨⟩ }
  · exact sound

theorem TargetSound.attemptFailed
    (sound : outbound.TargetSound gap target)
    (orderly : outbound.Orderly gap) :
    outbound.TargetSound gap (outbound.attemptFailed target) := by
  unfold P2pOutbound.attemptFailed
  cases attempt : target.attemptInProgress with
  | none => exact sound
  | some owner =>
      cases owner with
      | connectPeer =>
          exact {
            alone := fun busy => absurd rfl busy
            doubled := ⟨1, orderly.nextBackoff_initial⟩
            spaced := fun _ _ =>
              ⟨_, rfl, orderly.later (le_refl _)⟩ }
      | reconnectLoop =>
          obtain ⟨failures, isDelay⟩ := sound.doubled
          have atLeast :
              outbound.outboundReconnectInitial ≤ target.backoff := by
            rw [isDelay]
            exact orderly.initial_le_delayAfter failures
          have doubled :
              nextBackoff target.backoff outbound.outboundReconnectMax =
                outbound.delayAfter (failures + 1) := by
            rw [isDelay, nextBackoff_delayAfter]
          exact {
            alone := fun busy => absurd rfl busy
            doubled := ⟨failures + 1, doubled⟩
            spaced := fun _ _ => ⟨_, rfl, orderly.later atLeast⟩ }

theorem TargetSound.peerDied
    (sound : outbound.TargetSound gap target)
    (handle : Nat) :
    outbound.TargetSound gap (P2pOutbound.peerDied handle target) where
  alone := by
    intro busy
    change Option.map _ target.peer = none
    rw [sound.alone busy]
    rfl
  doubled := sound.doubled
  spaced := by
    intro alone idle
    exact sound.spaced (Option.map_eq_none_iff.mp alone) idle

theorem TargetSound.noticed
    (sound : outbound.TargetSound gap target)
    (orderly : outbound.Orderly gap) :
    outbound.TargetSound gap (outbound.noticed target) ∧
      (outbound.noticed target).endpoint = target.endpoint := by
  unfold P2pOutbound.noticed
  cases target.peer with
  | none => exact ⟨sound, rfl⟩
  | some peer =>
      dsimp only
      split_ifs
      · exact ⟨sound, rfl⟩
      · exact ⟨{
          alone := fun _ => rfl
          doubled := ⟨1, orderly.nextBackoff_initial⟩
          spaced := fun _ _ => ⟨_, rfl, orderly.later (le_refl _)⟩ }, rfl⟩

/-- A ban that is asked for ends later. -/
theorem targetBan_lasts
    {now deadline : Nat}
    {book asked : P2pPeerScoreBook}
    (banned : targetBan target now book = (some deadline, asked)) :
    now < deadline := by
  unfold targetBan at banned
  split at banned
  · unfold P2pPeerScoreBook.bannedUntil at banned
    split at banned
    · cases banned
    · have ends := (Prod.mk.inj banned).1
      exact (PeerScoreEntry.refresh_bannedUntil.mp ends).2
  · cases banned

/-- A book without bans answers so for every target, and stays as it is. -/
theorem targetBan_of_neverBans
    {book : P2pPeerScoreBook}
    (never : NeverBans book)
    (target : OutboundTarget)
    (now : Nat) :
    targetBan target now book = (none, book) := by
  unfold targetBan
  split
  · exact never _ _
  · rfl

end Targets

section Scan

variable {gap : Nat} {outbound : P2pOutbound}

/-- What a pass of the loop leaves: sound targets, one of which may be dialed. -/
structure Scanned
    (gap : Nat)
    (outbound : P2pOutbound)
    (before after : List OutboundTarget)
    (dialed : Option P2pEndpoint) :
    Prop where
  endpoints :
    after.map OutboundTarget.endpoint = before.map OutboundTarget.endpoint
  sound : ∀ target ∈ after, outbound.TargetSound gap target
  due :
    ∀ endpoint ∈ dialed,
      endpoint ∈ before.map OutboundTarget.endpoint ∧
        (∀ target ∈ after, target.endpoint = endpoint →
          target.attemptInProgress ≠ none) ∧
        ∀ dial ∈ outbound.dials, dial.1 = endpoint →
          dial.2 + gap ≤ outbound.now

/-- A pass that goes on behind its first target. -/
theorem Scanned.cons
    {first next : OutboundTarget}
    {before after : List OutboundTarget}
    {dialed : Option P2pEndpoint}
    (scanned : Scanned gap outbound before after dialed)
    (same : next.endpoint = first.endpoint)
    (fresh : first.endpoint ∉ before.map OutboundTarget.endpoint)
    (sound : outbound.TargetSound gap next) :
    Scanned gap outbound (first :: before) (next :: after) dialed where
  endpoints := by
    rw [List.map_cons, List.map_cons, same, scanned.endpoints]
  sound := List.forall_mem_cons.mpr ⟨sound, scanned.sound⟩
  due := by
    intro endpoint isDialed
    obtain ⟨member, busy, distance⟩ := scanned.due endpoint isDialed
    refine ⟨List.mem_cons_of_mem _ member, ?_, distance⟩
    refine List.forall_mem_cons.mpr ⟨?_, busy⟩
    rintro rfl
    rw [same] at member
    exact absurd member fresh

theorem scan_scanned
    (orderly : outbound.Orderly gap)
    (targets : List OutboundTarget)
    (book : P2pPeerScoreBook)
    (distinct : (targets.map OutboundTarget.endpoint).Nodup)
    (sound : ∀ target ∈ targets, outbound.TargetSound gap target)
    (bans : gap ≤ 1 ∨ NeverBans book) :
    Scanned gap outbound targets (scan outbound targets book).1
        (scan outbound targets book).2.2 ∧
      (NeverBans book → (scan outbound targets book).2.1 = book) := by
  induction targets generalizing book with
  | nil =>
      refine ⟨⟨rfl, sound, ?_⟩, fun _ => rfl⟩
      rintro endpoint ⟨⟩
  | cons first rest inductionHypothesis =>
      rw [List.map_cons, List.nodup_cons] at distinct
      obtain ⟨firstSound, restSound⟩ := List.forall_mem_cons.mp sound
      obtain ⟨seenSound, same⟩ := firstSound.noticed orderly
      rw [scan]
      cases asked : targetBan (outbound.noticed first) outbound.now book with
      | mk answer after =>
          have bansAfter : gap ≤ 1 ∨ NeverBans after := by
            rcases bans with short | never
            · exact .inl short
            · rw [targetBan_of_neverBans never] at asked
              cases asked
              exact .inr never
          have unchanged (never : NeverBans book) :
              answer = none ∧ after = book := by
            rw [targetBan_of_neverBans never] at asked
            cases asked
            exact ⟨rfl, rfl⟩
          obtain ⟨later, sameBook⟩ :=
            inductionHypothesis after distinct.2 restSound bansAfter
          cases answer with
          | some deadline =>
              dsimp only
              refine ⟨later.cons same distinct.1 ?_, ?_⟩
              · exact {
                  alone := seenSound.alone
                  doubled := seenSound.doubled
                  spaced := by
                    intro _ _
                    refine ⟨deadline, rfl, ?_⟩
                    intro dial member _
                    have past := (orderly.known dial member).2
                    have lasts := targetBan_lasts asked
                    rcases bans with short | never
                    · omega
                    · cases (unchanged never).1 }
              · intro never
                cases (unchanged never).1
          | none =>
              dsimp only
              split_ifs with due
              · refine ⟨⟨?_, ?_, ?_⟩, fun never => (unchanged never).2⟩
                · rw [List.map_cons, List.map_cons, same]
                · refine List.forall_mem_cons.mpr ⟨?_, restSound⟩
                  exact {
                    alone := fun _ => due.1
                    doubled := seenSound.doubled
                    spaced := by rintro _ ⟨⟩ }
                · rintro endpoint ⟨⟩
                  refine ⟨by rw [same]; exact List.mem_cons_self, ?_, ?_⟩
                  · refine List.forall_mem_cons.mpr ⟨?_, ?_⟩
                    · rintro _ ⟨⟩
                    · intro other member again
                      rw [same] at again
                      rw [← again] at distinct
                      exact absurd (List.mem_map_of_mem member) distinct.1
                  · intro dial member isEndpoint
                    obtain ⟨alone, idle, time, isTime, passed⟩ := due
                    obtain ⟨other, isOther, distance⟩ :=
                      seenSound.spaced alone idle
                    rw [isOther] at isTime
                    cases isTime
                    exact le_trans (distance dial member isEndpoint) passed
              · refine ⟨later.cons same distinct.1 seenSound, ?_⟩
                intro never
                rw [(unchanged never).2] at sameBook ⊢
                exact sameBook never

end Scan

section Steps

variable {gap : Nat} {outbound : P2pOutbound}

/-- Soundness of a target rests on the delays and the dials only. -/
theorem TargetSound.dial
    {target : OutboundTarget}
    {next : P2pOutbound}
    (sound : outbound.TargetSound gap target)
    (sameInitial :
      next.outboundReconnectInitial = outbound.outboundReconnectInitial)
    (sameMax : next.outboundReconnectMax = outbound.outboundReconnectMax)
    (dials :
      target.peer = none → target.attemptInProgress = none →
        ∀ dial ∈ next.dials, dial.1 = target.endpoint →
          dial ∈ outbound.dials) :
    next.TargetSound gap target where
  alone := sound.alone
  doubled := by
    obtain ⟨failures, isDelay⟩ := sound.doubled
    refine ⟨failures, ?_⟩
    rw [isDelay, delayAfter, delayAfter, sameInitial, sameMax]
  spaced := by
    intro alone idle
    obtain ⟨due, isDue, distance⟩ := sound.spaced alone idle
    refine ⟨due, isDue, ?_⟩
    intro dial member isEndpoint
    exact distance dial (dials alone idle dial member isEndpoint) isEndpoint

/-- Changing targets one by one keeps them orderly when it keeps them sound. -/
theorem Orderly.map
    (orderly : outbound.Orderly gap)
    {change : OutboundTarget → OutboundTarget}
    (same : ∀ target, (change target).endpoint = target.endpoint)
    (sound :
      ∀ target, outbound.TargetSound gap target →
        outbound.TargetSound gap (change target)) :
    Orderly gap { outbound with
      outboundTargets := outbound.outboundTargets.map change } := by
  have endpoints :
      (outbound.outboundTargets.map change).map OutboundTarget.endpoint =
        outbound.outboundTargets.map OutboundTarget.endpoint := by
    rw [List.map_map]
    exact List.map_congr_left fun target _ => same target
  constructor
  case close => exact orderly.close
  case delays => exact orderly.delays
  case distinct =>
    rw [endpoints]
    exact orderly.distinct
  case known =>
    rw [endpoints]
    exact orderly.known
  case spaced => exact orderly.spaced
  case sound =>
    intro target member
    obtain ⟨before, isBefore, rfl⟩ := List.mem_map.mp member
    exact (sound before (orderly.sound before isBefore)).dial rfl rfl
      (fun _ _ _ member _ => member)

theorem Orderly.update
    (orderly : outbound.Orderly gap)
    (endpoint : P2pEndpoint)
    {change : OutboundTarget → OutboundTarget}
    (same : ∀ target, (change target).endpoint = target.endpoint)
    (sound :
      ∀ target, outbound.TargetSound gap target →
        outbound.TargetSound gap (change target)) :
    (outbound.update endpoint change).Orderly gap := by
  refine orderly.map ?_ ?_
  · intro target
    split_ifs
    · exact same target
    · rfl
  · intro target before
    split_ifs
    · exact sound target before
    · exact before

theorem Orderly.connectPeer
    (orderly : outbound.Orderly gap)
    (endpoint : P2pEndpoint) :
    (outbound.connectPeer endpoint).Orderly gap := by
  unfold P2pOutbound.connectPeer
  split_ifs with managed
  · exact orderly
  have fresh :
      endpoint ∉ outbound.outboundTargets.map OutboundTarget.endpoint := by
    intro member
    obtain ⟨existing, isTarget, same⟩ := List.mem_map.mp member
    exact managed (List.any_eq_true.mpr ⟨existing, isTarget, by simp [same]⟩)
  constructor
  case close => exact orderly.close
  case delays => exact orderly.delays
  case distinct =>
    rw [List.map_append, List.map_singleton, List.nodup_append]
    refine ⟨orderly.distinct, List.nodup_singleton _, ?_⟩
    rintro other before _ last rfl
    rw [List.mem_singleton.mp last] at before
    exact fresh before
  case known =>
    refine List.forall_mem_cons.mpr ⟨⟨?_, le_refl _⟩, ?_⟩
    · rw [List.map_append]
      exact List.mem_append_right _ (List.mem_singleton_self _)
    · intro dial member
      obtain ⟨isTarget, past⟩ := orderly.known dial member
      rw [List.map_append]
      exact ⟨List.mem_append_left _ isTarget, past⟩
  case spaced =>
    refine List.pairwise_cons.mpr ⟨?_, orderly.spaced⟩
    rintro dial member rfl
    exact absurd (orderly.known dial member).1 fresh
  case sound =>
    intro target member
    rcases List.mem_append.mp member with before | last
    · refine (orderly.sound target before).dial rfl rfl ?_
      intro _ _ dial isDial isEndpoint
      rcases List.mem_cons.mp isDial with rfl | earlier
      · rw [show endpoint = target.endpoint from isEndpoint] at fresh
        exact absurd (List.mem_map_of_mem before) fresh
      · exact earlier
    · rw [List.mem_singleton.mp last]
      exact {
        alone := fun _ => rfl
        doubled := ⟨0, orderly.delayAfter_zero.symm⟩
        spaced := by rintro _ ⟨⟩ }

theorem Orderly.reconnectLoop
    (orderly : outbound.Orderly gap)
    (bans : gap ≤ 1 ∨ NeverBans outbound.peerScores) :
    outbound.reconnectLoop.Orderly gap := by
  unfold P2pOutbound.reconnectLoop
  split_ifs
  · exact orderly
  obtain ⟨scanned, _⟩ :=
    scan_scanned orderly outbound.outboundTargets outbound.peerScores
      orderly.distinct orderly.sound bans
  constructor
  case close => exact orderly.close
  case delays => exact orderly.delays
  case distinct =>
    rw [scanned.endpoints]
    exact orderly.distinct
  case known =>
    intro dial member
    rw [scanned.endpoints]
    rcases List.mem_append.mp member with isNew | earlier
    · obtain ⟨endpoint, isDialed, rfl⟩ := List.mem_map.mp isNew
      exact ⟨(scanned.due endpoint (Option.mem_toList.mp isDialed)).1,
        le_refl _⟩
    · exact orderly.known dial earlier
  case spaced =>
    refine List.pairwise_append.mpr ⟨?_, orderly.spaced, ?_⟩
    · cases (scan outbound outbound.outboundTargets
        outbound.peerScores).2.2 with
      | none => exact List.Pairwise.nil
      | some endpoint => exact List.pairwise_singleton _ _
    · intro later isNew earlier member same
      obtain ⟨endpoint, isDialed, rfl⟩ := List.mem_map.mp isNew
      exact (scanned.due endpoint (Option.mem_toList.mp isDialed)).2.2 earlier
        member same.symm
  case sound =>
    intro target member
    refine (scanned.sound target member).dial rfl rfl ?_
    intro _ idle dial isDial isEndpoint
    rcases List.mem_append.mp isDial with isNew | earlier
    · obtain ⟨endpoint, isDialed, rfl⟩ := List.mem_map.mp isNew
      exact absurd idle
        ((scanned.due endpoint (Option.mem_toList.mp isDialed)).2.1 target
          member isEndpoint.symm)
    · exact earlier

/-- Every step keeps the targets in order. -/
theorem Orderly.step
    (orderly : outbound.Orderly gap)
    (bans : gap ≤ 1 ∨ NeverBans outbound.peerScores)
    (step : OutboundStep) :
    (step.run outbound).Orderly gap := by
  cases step with
  | wait elapsed =>
      exact {
        close := orderly.close
        delays := orderly.delays
        distinct := orderly.distinct
        known := fun dial member =>
          ⟨(orderly.known dial member).1,
            le_trans (orderly.known dial member).2 (Nat.le_add_right _ _)⟩
        spaced := orderly.spaced
        sound := fun target member =>
          (orderly.sound target member).dial rfl rfl
            (fun _ _ _ isDial _ => isDial) }
  | connectPeer endpoint => exact orderly.connectPeer endpoint
  | attached endpoint peer =>
      refine orderly.update endpoint ?_ ?_
      · intro target
        unfold P2pOutbound.attached
        split_ifs <;> rfl
      · intro target sound
        exact sound.attached orderly peer
  | attemptFailed endpoint =>
      refine orderly.update endpoint ?_ ?_
      · intro target
        unfold P2pOutbound.attemptFailed
        split <;> rfl
      · intro target sound
        exact sound.attemptFailed orderly
  | peerDied handle =>
      exact orderly.map (fun _ => rfl) (fun _ sound => sound.peerDied handle)
  | penalize nodeId penalty =>
      exact {
        close := orderly.close
        delays := orderly.delays
        distinct := orderly.distinct
        known := orderly.known
        spaced := orderly.spaced
        sound := fun target member =>
          (orderly.sound target member).dial rfl rfl
            (fun _ _ _ isDial _ => isDial) }
  | reconnectLoop => exact orderly.reconnectLoop bans

end Steps

end P2pOutbound

/-- The step reports no misbehavior. -/
def OutboundStep.Quiet : OutboundStep → Prop
  | penalize _ _ => False
  | _ => True

namespace P2pOutbound

section Runs

variable {gap : Nat} {outbound : P2pOutbound}

/-- Where nothing is reported, nobody gets banned. -/
theorem neverBans_step
    (orderly : outbound.Orderly gap)
    (never : NeverBans outbound.peerScores)
    {step : OutboundStep}
    (quiet : step.Quiet) :
    NeverBans (step.run outbound).peerScores := by
  cases step with
  | connectPeer endpoint =>
      rw [OutboundStep.run, connectPeer]
      split_ifs <;> exact never
  | penalize nodeId penalty => exact quiet.elim
  | reconnectLoop =>
      rw [OutboundStep.run, reconnectLoop]
      split_ifs
      · exact never
      · have same :=
          (scan_scanned orderly outbound.outboundTargets outbound.peerScores
            orderly.distinct orderly.sound (.inr never)).2 never
        change NeverBans (scan outbound _ _).2.1
        rw [same]
        exact never
  | wait elapsed => exact never
  | attached endpoint peer => exact never
  | attemptFailed endpoint => exact never
  | peerDied handle => exact never

theorem step_delays (step : OutboundStep) :
    (step.run outbound).outboundReconnectInitial =
        outbound.outboundReconnectInitial ∧
      (step.run outbound).outboundReconnectMax =
        outbound.outboundReconnectMax := by
  cases step with
  | connectPeer endpoint =>
      rw [OutboundStep.run, connectPeer]
      split_ifs <;> exact ⟨rfl, rfl⟩
  | reconnectLoop =>
      rw [OutboundStep.run, reconnectLoop]
      split_ifs <;> exact ⟨rfl, rfl⟩
  | wait elapsed => exact ⟨rfl, rfl⟩
  | attached endpoint peer => exact ⟨rfl, rfl⟩
  | attemptFailed endpoint => exact ⟨rfl, rfl⟩
  | peerDied handle => exact ⟨rfl, rfl⟩
  | penalize nodeId penalty => exact ⟨rfl, rfl⟩

theorem run_delays (steps : List OutboundStep) :
    (runOutbound steps outbound).outboundReconnectInitial =
        outbound.outboundReconnectInitial ∧
      (runOutbound steps outbound).outboundReconnectMax =
        outbound.outboundReconnectMax := by
  induction steps generalizing outbound with
  | nil => exact ⟨rfl, rfl⟩
  | cons step rest inductionHypothesis =>
      obtain ⟨sameInitial, sameMax⟩ := @step_delays outbound step
      obtain ⟨laterInitial, laterMax⟩ :=
        @inductionHypothesis (step.run outbound)
      exact ⟨laterInitial.trans sameInitial, laterMax.trans sameMax⟩

theorem Orderly.run
    (orderly : outbound.Orderly gap)
    (steps : List OutboundStep)
    (bans :
      gap ≤ 1 ∨
        NeverBans outbound.peerScores ∧ ∀ step ∈ steps, step.Quiet) :
    (runOutbound steps outbound).Orderly gap := by
  induction steps generalizing outbound with
  | nil => exact orderly
  | cons step rest inductionHypothesis =>
      rcases bans with short | ⟨never, quiet⟩
      · exact inductionHypothesis (orderly.step (.inl short) step) (.inl short)
      · refine inductionHypothesis (orderly.step (.inr never) step)
          (.inr ⟨?_, fun later member =>
            quiet later (List.mem_cons_of_mem _ member)⟩)
        exact neverBans_step orderly never (quiet step List.mem_cons_self)

end Runs

end P2pOutbound

/-- What a node promises the endpoints it dials. -/
structure OutboundLaws (start : P2pOutbound) (steps : List OutboundStep) :
    Prop where
  distinct :
    ((runOutbound steps start).outboundTargets.map
      OutboundTarget.endpoint).Nodup
  alone :
    ∀ target ∈ (runOutbound steps start).outboundTargets,
      target.attemptInProgress ≠ none → target.peer = none
  backoff :
    ∀ target ∈ (runOutbound steps start).outboundTargets,
      ∃ failures, target.backoff = start.delayAfter failures
  apart :
    (runOutbound steps start).dials.Pairwise fun later earlier =>
      later.1 = earlier.1 → earlier.2 < later.2
  delayed :
    P2pOutbound.NeverBans start.peerScores →
      (∀ step ∈ steps, step.Quiet) →
        (runOutbound steps start).dials.Pairwise fun later earlier =>
          later.1 = earlier.1 →
            earlier.2 + start.outboundReconnectInitial ≤ later.2

/--
In every run the managed endpoints are distinct, no target is dialed while it has a
peer, and no endpoint is dialed twice at one time.  Unless a ban ends in between,
the initial delay at least lies between two dials of an endpoint.
-/
theorem runOutbound_laws
    {outboundReconnectInitial outboundReconnectMax : Nat}
    {peerScores : P2pPeerScoreBook}
    {start : P2pOutbound}
    (created :
      P2pOutbound.create outboundReconnectInitial outboundReconnectMax
        peerScores = .ok start)
    (steps : List OutboundStep) :
    OutboundLaws start steps := by
  have begins :
      0 < start.outboundReconnectInitial ∧
        ∀ gap ≤ start.outboundReconnectInitial, start.Orderly gap := by
    unfold P2pOutbound.create at created
    by_cases zero : outboundReconnectInitial = 0
    · rw [if_pos zero] at created
      cases created
    by_cases crossed : outboundReconnectMax < outboundReconnectInitial
    · rw [if_neg zero, if_pos crossed] at created
      cases created
    rw [if_neg zero, if_neg crossed] at created
    cases created
    refine ⟨Nat.pos_of_ne_zero zero, ?_⟩
    intro gap close
    exact {
      close := close
      delays := not_lt.mp crossed
      distinct := List.nodup_nil
      known := by rintro dial ⟨⟩
      spaced := List.Pairwise.nil
      sound := by rintro target ⟨⟩ }
  obtain ⟨positive, orderly⟩ := begins
  have always := (orderly 1 positive).run steps (.inl (le_refl 1))
  obtain ⟨sameInitial, sameMax⟩ :=
    @P2pOutbound.run_delays start steps
  constructor
  case distinct => exact always.distinct
  case alone => exact fun target member => (always.sound target member).alone
  case backoff =>
    intro target member
    obtain ⟨failures, isDelay⟩ := (always.sound target member).doubled
    refine ⟨failures, ?_⟩
    rw [isDelay, P2pOutbound.delayAfter, P2pOutbound.delayAfter, sameInitial,
      sameMax]
  case apart => exact always.spaced
  case delayed =>
    intro never quiet
    exact ((orderly _ (le_refl _)).run steps (.inr ⟨never, quiet⟩)).spaced

/-- A target that fails at once is dialed again after the initial delay. -/
theorem sampleOutbound_laws :
    ∃ start,
      P2pOutbound.create 1000 30000 {} = .ok start ∧
        OutboundLaws start
          [.connectPeer ⟨"pool", 18080⟩, .attemptFailed ⟨"pool", 18080⟩,
            .reconnectLoop, .wait 1000, .reconnectLoop] :=
  ⟨_, rfl, @runOutbound_laws 1000 30000 {} _ rfl _⟩

end ZanoP2pool
