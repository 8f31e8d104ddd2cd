import ZanoP2pool.Foundation.TreeMap
import ZanoP2pool.P2pProtocol

namespace ZanoP2pool

open Foundation

/-!
# Peer scores

Penalties of a node id add up to a temporary ban.  Every access first refreshes the
entry it reads: a ban that has expired is dropped together with the score.  Times
are milliseconds of a clock that never goes back.
-/

structure P2pPeerScoreConfig where
  banThreshold : UInt32 := 100
  banDuration : Nat := 300000
  deriving Repr, DecidableEq

structure P2pPeerPenaltyResult where
  score : UInt32
  banned : Bool
  banStarted : Bool
  bannedUntil : Option Nat
  deriving Repr, DecidableEq

structure PeerScoreEntry where
  score : UInt32 := 0
  bannedUntil : Option Nat := none
  deriving Repr, DecidableEq

namespace PeerScoreEntry

def refresh (entry : PeerScoreEntry) (now : Nat) : PeerScoreEntry :=
  match entry.bannedUntil with
  | some deadline => if now ≥ deadline then {} else entry
  | none => entry

def result
    (entry : PeerScoreEntry)
    (banStarted : Bool) :
    P2pPeerPenaltyResult :=
  { score := entry.score
    banned := entry.bannedUntil.isSome
    banStarted
    bannedUntil := entry.bannedUntil }

/-- A ban that lasts is kept with its deadline. -/
theorem refresh_bannedUntil
    {entry : PeerScoreEntry}
    {now deadline : Nat} :
    (entry.refresh now).bannedUntil = some deadline ↔
      entry.bannedUntil = some deadline ∧ now < deadline := by
  unfold refresh
  cases banned : entry.bannedUntil with
  | none => simp [banned]
  | some until? =>
      by_cases expired : now ≥ until?
      · simp only [if_pos expired]
        constructor
        · intro impossible
          cases impossible
        · rintro ⟨same, lasting⟩
          cases same
          omega
      · simp only [if_neg expired, banned]
        constructor
        · intro same
          cases same
          exact ⟨rfl, by omega⟩
        · exact fun lasting => lasting.1

/-- Refreshing early does not matter for a later refresh. -/
theorem refresh_refresh
    {entry : PeerScoreEntry}
    {now later : Nat}
    (order : now ≤ later) :
    (entry.refresh now).refresh later = entry.refresh later := by
  cases banned : entry.bannedUntil with
  | none => simp [refresh, banned]
  | some deadline =>
      by_cases expired : now ≥ deadline
      · have expiredLater : later ≥ deadline := by omega
        simp [refresh, banned, expired, expiredLater]
      · simp [refresh, banned, expired]

end PeerScoreEntry

structure P2pPeerScoreBook where
  config : P2pPeerScoreConfig := {}
  entries : Std.ExtTreeMap NodeId PeerScoreEntry := ∅

namespace P2pPeerScoreBook

def create (config : P2pPeerScoreConfig) : Except Exception P2pPeerScoreBook :=
  if config.banThreshold = 0 then
    throw (.runtimeError "P2P peer ban threshold must be nonzero")
  else if config.banDuration = 0 then
    throw (.runtimeError "P2P peer ban duration must be positive")
  else
    return { config }

/-- The entry of a node id as an access at a time finds it. -/
def entryAt
    (book : P2pPeerScoreBook)
    (nodeId : NodeId)
    (now : Nat) :
    PeerScoreEntry :=
  (book.entries[nodeId]?.getD {}).refresh now

def store
    (book : P2pPeerScoreBook)
    (nodeId : NodeId)
    (entry : PeerScoreEntry) :
    P2pPeerScoreBook :=
  { book with entries := book.entries.insert nodeId entry }

def penalize
    (book : P2pPeerScoreBook)
    (nodeId : NodeId)
    (penalty : UInt32)
    (now : Nat) :
    P2pPeerPenaltyResult × P2pPeerScoreBook :=
  let entry := book.entryAt nodeId now
  if entry.bannedUntil.isSome then
    (entry.result false, book.store nodeId entry)
  else if penalty = 0 then
    (entry.result false, book.store nodeId entry)
  else
    let room :=
      if book.config.banThreshold > entry.score then
        book.config.banThreshold - entry.score
      else
        0
    let score := entry.score + if room < penalty then room else penalty
    if score ≥ book.config.banThreshold then
      let banned : PeerScoreEntry :=
        { score := book.config.banThreshold
          bannedUntil := some (now + book.config.banDuration) }
      (banned.result true, book.store nodeId banned)
    else
      let raised : PeerScoreEntry := { entry with score }
      (raised.result false, book.store nodeId raised)

def bannedUntil
    (book : P2pPeerScoreBook)
    (nodeId : NodeId)
    (now : Nat) :
    Option Nat × P2pPeerScoreBook :=
  match book.entries[nodeId]? with
  | none => (none, book)
  | some entry =>
      ((entry.refresh now).bannedUntil, book.store nodeId (entry.refresh now))

def banned
    (book : P2pPeerScoreBook)
    (nodeId : NodeId)
    (now : Nat) :
    Bool × P2pPeerScoreBook :=
  ((book.bannedUntil nodeId now).1.isSome, (book.bannedUntil nodeId now).2)

/-- The node id has a ban that has not expired. -/
def Banned
    (book : P2pPeerScoreBook)
    (nodeId : NodeId)
    (now : Nat) :
    Prop :=
  ∃ entry deadline,
    book.entries[nodeId]? = some entry ∧
      entry.bannedUntil = some deadline ∧ now < deadline

/-- A penalty now brings the node id, not banned yet, to the threshold. -/
def ReachesThreshold
    (book : P2pPeerScoreBook)
    (nodeId : NodeId)
    (penalty : UInt32)
    (now : Nat) :
    Prop :=
  ¬ book.Banned nodeId now ∧ penalty ≠ 0 ∧
    book.config.banThreshold.toNat ≤
      (book.entryAt nodeId now).score.toNat + penalty.toNat

section Laws

variable {book : P2pPeerScoreBook}
variable {nodeId : NodeId}
variable {now : Nat}

theorem banned_iff_entryAt :
    book.Banned nodeId now ↔
      (book.entryAt nodeId now).bannedUntil.isSome = true := by
  unfold Banned entryAt
  rw [Option.isSome_iff_exists]
  constructor
  · rintro ⟨entry, deadline, found, banned, lasting⟩
    refine ⟨deadline, PeerScoreEntry.refresh_bannedUntil.mpr ?_⟩
    rw [found]
    exact ⟨banned, lasting⟩
  · rintro ⟨deadline, banned⟩
    obtain ⟨kept, lasting⟩ := PeerScoreEntry.refresh_bannedUntil.mp banned
    cases found : book.entries[nodeId]? with
    | none =>
        rw [found] at kept
        cases kept
    | some entry =>
        rw [found] at kept
        exact ⟨entry, deadline, rfl, kept, lasting⟩

/-- A ban that lasts at a time lasted before. -/
theorem Banned.earlier
    {later : Nat}
    (banned : book.Banned nodeId later)
    (order : now ≤ later) :
    book.Banned nodeId now := by
  obtain ⟨entry, deadline, found, kept, lasting⟩ := banned
  exact ⟨entry, deadline, found, kept, by omega⟩

/-- The entry after a store. -/
theorem entryAt_store
    {other : NodeId}
    {entry : PeerScoreEntry}
    {later : Nat} :
    (book.store nodeId entry).entryAt other later =
      if other = nodeId then entry.refresh later
      else book.entryAt other later := by
  unfold entryAt store
  rw [Std.ExtTreeMap.getElem?_insert]
  by_cases same : other = nodeId
  · subst same
    simp
  · rw [if_neg same, if_neg]
    rw [Std.LawfulEqCmp.compare_eq_iff_eq]
    exact Ne.symm same

/-- Storing a refreshed entry changes no later ban. -/
theorem banned_store_refreshed
    {other : NodeId} :
    (book.store nodeId (book.entryAt nodeId now)).Banned other now ↔
      book.Banned other now := by
  rw [banned_iff_entryAt, banned_iff_entryAt, entryAt_store]
  by_cases same : other = nodeId
  · subst same
    rw [if_pos rfl]
    unfold entryAt
    rw [PeerScoreEntry.refresh_refresh (le_refl now)]
  · rw [if_neg same]

/-- Asking for a ban answers whether it lasts and changes none. -/
theorem banned_spec :
    ((book.banned nodeId now).1 = true ↔ book.Banned nodeId now) ∧
      ∀ other,
        (book.banned nodeId now).2.Banned other now ↔
          book.Banned other now := by
  unfold banned bannedUntil
  rw [banned_iff_entryAt]
  cases found : book.entries[nodeId]? with
  | none =>
      simp only [entryAt, found]
      exact ⟨Iff.rfl, fun _ => trivial⟩
  | some entry =>
      have refreshed : book.entryAt nodeId now = entry.refresh now := by
        unfold entryAt
        rw [found]
        rfl
      simp only [← refreshed]
      exact ⟨trivial, fun _ => banned_store_refreshed⟩

/-- Capping a penalty at the room below the threshold loses no ban. -/
theorem threshold_le_raised
    {threshold score penalty room : UInt32}
    (below :
      room = if threshold > score then threshold - score else 0) :
    threshold ≤ score + (if room < penalty then room else penalty) ↔
      threshold.toNat ≤ score.toNat + penalty.toNat := by
  have fits := threshold.toNat_lt
  have roomIs : room.toNat = threshold.toNat - score.toNat := by
    rw [below]
    split_ifs with lower
    · exact UInt32.toNat_sub_of_le threshold score (UInt32.le_of_lt lower)
    · rw [gt_iff_lt, UInt32.lt_iff_toNat_lt] at lower
      simp only [UInt32.toNat_zero]
      omega
  have scoreFits := score.toNat_lt
  rw [UInt32.le_iff_toNat_le, UInt32.toNat_add]
  by_cases large : room < penalty
  · have bound := UInt32.lt_iff_toNat_lt.mp large
    rw [if_pos large, Nat.mod_eq_of_lt (by omega)]
    omega
  · have bound := mt UInt32.lt_iff_toNat_lt.mpr large
    rw [if_neg large, Nat.mod_eq_of_lt (by omega)]

/--
A penalty starts a ban exactly when it reaches the threshold; otherwise no ban
changes, and the bans of other node ids never do.
-/
theorem penalize_spec
    {penalty : UInt32} :
    ((book.penalize nodeId penalty now).1.banStarted = true ↔
      book.ReachesThreshold nodeId penalty now) ∧
      ∀ other,
        (book.penalize nodeId penalty now).2.Banned other now →
          book.Banned other now ∨
            (other = nodeId ∧
              book.ReachesThreshold nodeId penalty now) := by
  unfold penalize ReachesThreshold
  rw [banned_iff_entryAt]
  by_cases isBanned : (book.entryAt nodeId now).bannedUntil.isSome = true
  · simp only [if_pos isBanned]
    refine ⟨by simp [PeerScoreEntry.result, isBanned], ?_⟩
    exact fun other banned => .inl (banned_store_refreshed.mp banned)
  simp only [if_neg isBanned]
  by_cases nothing : penalty = 0
  · simp only [if_pos nothing]
    refine ⟨by simp [PeerScoreEntry.result, nothing], ?_⟩
    exact fun other banned => .inl (banned_store_refreshed.mp banned)
  simp only [if_neg nothing]
  generalize below :
    (if book.config.banThreshold > (book.entryAt nodeId now).score then
      book.config.banThreshold - (book.entryAt nodeId now).score
    else 0) = room
  have raised :=
    @threshold_le_raised book.config.banThreshold
      (book.entryAt nodeId now).score penalty room below.symm
  by_cases reached :
      book.config.banThreshold.toNat ≤
        (book.entryAt nodeId now).score.toNat + penalty.toNat
  · simp only [if_pos (raised.mpr reached)]
    refine ⟨by simp [PeerScoreEntry.result, isBanned, nothing, reached], ?_⟩
    intro other banned
    by_cases same : other = nodeId
    · exact .inr ⟨same, by simpa using isBanned, nothing, reached⟩
    · left
      rw [banned_iff_entryAt, entryAt_store, if_neg same] at banned
      exact banned_iff_entryAt.mpr banned
  · simp only [if_neg (mt raised.mp reached)]
    refine ⟨by simp [PeerScoreEntry.result, reached], ?_⟩
    intro other banned
    left
    rw [banned_iff_entryAt, entryAt_store] at banned
    by_cases same : other = nodeId
    · subst same
      rw [if_pos rfl, Option.isSome_iff_exists] at banned
      obtain ⟨deadline, kept⟩ := banned
      have early := (PeerScoreEntry.refresh_bannedUntil.mp kept).1
      exact absurd (Option.isSome_iff_exists.mpr ⟨deadline, early⟩) isBanned
    · rw [if_neg same] at banned
      exact banned_iff_entryAt.mpr banned

end Laws

end P2pPeerScoreBook

end ZanoP2pool
