import ZanoP2pool.ShareLogReplay
import ZanoP2pool.ShareStoreRecords

namespace ZanoP2pool

open Foundation

/-!
# Interrupted appends

A log is cut at any point behind its header.  A load replays the records that
are complete, and the offset it counts is the end of the last of them, which is
where a repair cuts the file.
-/

/-- A call that writes the log of a store. -/
inductive StoreOp where
  | append (share : Share)
  | rewrite (shares : List Share)
  | erase (ids : List ShareId)

namespace StoreOp

def run (backend : Backend) : StoreOp → StoreM Unit
  | append share => ShareStore.append backend share
  | rewrite shares => ShareStore.rewrite backend shares
  | erase ids => do
      let _ ← ShareStore.eraseRecords backend ids

/-- The store after a call; a call that throws keeps what it wrote. -/
def attempt (backend : Backend) (store : ShareStore) (op : StoreOp) : ShareStore :=
  finalState (op.run backend store)

end StoreOp

namespace ShareStore

variable {backend : Backend}

/-- The log was written by calls of its store, from the first one on. -/
def Written (backend : Backend) (store : ShareStore) : Prop :=
  ∃ ops : List StoreOp,
    store = ops.foldl (StoreOp.attempt backend) { store with file := none }

/-- The first records of a log that lie completely within a length. -/
structure CompleteWithin
    (backend : Backend)
    (shares : List Share)
    (length : Nat)
    (kept : List Share)
    (keptBytes : List UInt8) :
    Prop where
  leading : kept <+: shares
  encodes : Encodes backend kept keptBytes
  within : keptBytes.length ≤ length
  maximal :
    ∀ longer longerBytes,
      longer <+: shares → Encodes backend longer longerBytes →
      longerBytes.length ≤ length → longer.length ≤ kept.length

section Reading

theorem length_recordBytes
    (payload : List UInt8)
    (id : ShareId) :
    (recordBytes payload id).length = 4 + payload.length + 32 := by
  simp only [recordBytes, List.length_append, length_bigEndian, hashBytes]

/-- A part of a record is a short tail, wherever it ends. -/
theorem nextRecord_cut
    {share : Share}
    {payload : List UInt8}
    (serialized : serializeShare backend share = .ok payload)
    (id : ShareId)
    (rest : List UInt8)
    {length : Nat}
    (some : 0 < length)
    (short : length < (recordBytes payload id).length) :
    nextRecord ((recordBytes payload id ++ rest).take length) =
      .ok .truncated := by
  have sized := payload_size serialized
  have fits : payload.length < 256 ^ 4 := by
    rcases sized with size | size <;> rw [size] <;> decide
  rw [length_recordBytes] at short
  have cut :
      ((recordBytes payload id ++ rest).take length).length = length := by
    rw [List.length_take, List.length_append, length_recordBytes]
    omega
  have nonempty : (recordBytes payload id ++ rest).take length ≠ [] := by
    intro empty
    rw [empty] at cut
    simp at cut
    omega
  unfold nextRecord
  simp only [List.length_drop, cut]
  rw [if_neg nonempty]
  by_cases inLength : length < 4
  · rw [if_pos inLength]
  · have announced :
        ((recordBytes payload id ++ rest).take length).take 4 =
          bigEndian 4 payload.length := by
      rw [List.take_take, Nat.min_eq_left (by omega), recordBytes, List.append_assoc,
        List.append_assoc]
      exact List.take_left' (length_bigEndian 4 _)
    rw [if_neg inLength, announced, ofBigEndian_bigEndian_of_lt fits,
      if_neg (by tauto)]
    by_cases inPayload : length - 4 < payload.length
    · rw [if_pos inPayload]
    · rw [if_neg inPayload, if_pos (by omega)]

/-- What a load of a cut log does after the records it replays. -/
def endOfLoad
    (repair : Bool)
    (kept : List Share)
    (keptBytes cut : List UInt8) :
    ChainM LoadProgress :=
  if cut = keptBytes then
    return completeProgress kept keptBytes
  else if !repair then
    throw (.runtimeError "share store final record is truncated")
  else
    return { completeProgress kept keptBytes with truncatedTail := true }

/-- A complete first record is counted before the rest. -/
theorem endOfLoad_cons
    (repair : Bool)
    (share : Share)
    (payload : List UInt8)
    (id : ShareId)
    (kept : List Share)
    (keptBytes cut : List UInt8)
    (chain : ShareChain) :
    (do let later ← endOfLoad repair kept keptBytes cut
        return { later with
          recordsLoaded := later.recordsLoaded + 1
          goodBytes := later.goodBytes + (4 + payload.length + 32) } :
            ChainM LoadProgress)
        chain =
      endOfLoad repair (share :: kept) (recordBytes payload id ++ keptBytes)
        (recordBytes payload id ++ cut) chain := by
  have goodBytes :
      keptBytes.length + (4 + payload.length + 32) =
        (recordBytes payload id ++ keptBytes).length := by
    rw [List.length_append, length_recordBytes]
    omega
  rw [bind_apply]
  unfold endOfLoad
  by_cases whole : cut = keptBytes
  · rw [if_pos whole, if_pos (by rw [whole])]
    simp only [completeProgress, List.length_cons, ← goodBytes]
    rfl
  · rw [if_neg whole, if_neg fun same => whole (List.append_cancel_left same)]
    cases repair with
    | false => rfl
    | true =>
        simp only [completeProgress, List.length_cons, ← goodBytes]
        rfl

/-- A complete first record is kept before the others. -/
theorem CompleteWithin.cons
    {share : Share}
    {id : ShareId}
    {shares kept : List Share}
    {payload keptBytes : List UInt8}
    {length : Nat}
    (serialized : serializeShare backend share = .ok payload)
    (keyed : shareId backend share = .ok id)
    (whole : (recordBytes payload id).length ≤ length)
    (complete :
      CompleteWithin backend shares (length - (recordBytes payload id).length) kept
        keptBytes) :
    CompleteWithin backend (share :: shares) length (share :: kept)
      (recordBytes payload id ++ keptBytes) := by
  have within := complete.within
  refine ⟨List.cons_prefix_cons.mpr ⟨rfl, complete.leading⟩,
    .cons serialized keyed complete.encodes, ?_, ?_⟩
  · rw [List.length_append]
    omega
  · intro longer longerBytes leading longerEncodes longerWithin
    cases longerEncodes with
    | nil => exact Nat.zero_le _
    | cons otherSerialized otherKeyed later =>
        obtain ⟨rfl, laterLeading⟩ := List.cons_prefix_cons.mp leading
        rw [serialized] at otherSerialized
        rw [keyed] at otherKeyed
        cases otherSerialized
        cases otherKeyed
        rw [List.length_append] at longerWithin
        have fewer := complete.maximal _ _ laterLeading later (by omega)
        simpa using fewer

/-- A cut log replays its complete records and then ends or is truncated. -/
theorem replayRecords_cut
    {shares : List Share}
    {bytes : List UInt8}
    (encodes : Encodes backend shares bytes)
    (length : Nat) :
    ∃ kept keptBytes,
      CompleteWithin backend shares length kept keptBytes ∧
        ∀ repair budget chain, (bytes.take length).length < budget →
          replayRecords backend repair budget (bytes.take length) chain =
            (do replayShares backend kept
                endOfLoad repair kept keptBytes (bytes.take length) :
                  ChainM LoadProgress)
              chain := by
  induction encodes generalizing length with
  | nil =>
      refine ⟨[], [], ⟨List.prefix_refl _, .nil, Nat.zero_le _, ?_⟩, ?_⟩
      · intro longer _ leading _ _
        rw [List.prefix_nil.mp leading]
      · intro repair budget chain enough
        rw [List.take_nil] at enough ⊢
        cases budget with
        | zero => cases enough
        | succ budget => rfl
  | @cons share id shares payload bytes serialized keyed laterEncodes
      inductionHypothesis =>
      by_cases whole : (recordBytes payload id).length ≤ length
      · obtain ⟨kept, keptBytes, complete, replays⟩ :=
          inductionHypothesis (length - (recordBytes payload id).length)
        refine ⟨share :: kept, recordBytes payload id ++ keptBytes,
          CompleteWithin.cons serialized keyed whole complete, ?_⟩
        intro repair budget chain enough
        have split :
            (recordBytes payload id ++ bytes).take length =
              recordBytes payload id ++
                bytes.take (length - (recordBytes payload id).length) := by
          rw [List.take_append, List.take_of_length_le whole]
        rw [split] at enough ⊢
        cases budget with
        | zero => cases enough
        | succ budget =>
            have shorter :
                (bytes.take (length - (recordBytes payload id).length)).length <
                  budget := by
              rw [List.length_append] at enough
              have positive := length_recordBytes payload id
              omega
            unfold replayRecords replayShares
            rw [bind_of_ok (orThrow_eq_ok.mpr
              ⟨nextRecord_recordBytes serialized id _, rfl⟩)]
            simp only
            rw [bind_of_ok (orThrow_eq_ok.mpr
              ⟨decodeRecord_eq serialized keyed, rfl⟩)]
            simp only [bind_apply]
            cases replayShare backend share chain with
            | error thrown middle => rfl
            | ok value middle =>
                simp only [replays repair budget middle shorter, bind_apply]
                cases replayShares backend kept middle with
                | error thrown final => rfl
                | ok _ final =>
                    simp only
                    have ended :=
                      endOfLoad_cons repair share payload id kept keptBytes
                        (bytes.take (length - (recordBytes payload id).length)) final
                    rw [bind_apply] at ended
                    exact ended
      · refine ⟨[], [], ⟨List.nil_prefix, .nil, Nat.zero_le _, ?_⟩, ?_⟩
        · intro longer longerBytes leading longerEncodes within
          cases longerEncodes with
          | nil => exact Nat.le_refl _
          | cons otherSerialized otherKeyed later =>
              obtain ⟨rfl, _⟩ := List.cons_prefix_cons.mp leading
              rw [serialized] at otherSerialized
              rw [keyed] at otherKeyed
              cases otherSerialized
              cases otherKeyed
              rw [List.length_append] at within
              omega
        · intro repair budget chain enough
          cases budget with
          | zero => cases enough
          | succ budget =>
              unfold replayRecords
              by_cases none : length = 0
              · subst none
                rfl
              · rw [bind_of_ok (orThrow_eq_ok.mpr
                  ⟨nextRecord_cut serialized id bytes (by omega) (by omega), rfl⟩)]
                have cut :
                    (recordBytes payload id ++ bytes).take length ≠ [] := by
                  intro empty
                  have gone := congrArg List.length empty
                  rw [List.length_take, List.length_append, length_recordBytes]
                    at gone
                  simp only [List.length_nil] at gone
                  omega
                simp only [replayShares, endOfLoad, if_neg cut]
                cases repair <;> rfl

end Reading

section Writing

/-- Whatever log a store has, the other store has one too. -/
def KeepsLog (backend : Backend) (store next : ShareStore) : Prop :=
  ∀ shares, HoldsOrAbsent backend store shares →
    ∃ later, HoldsOrAbsent backend next later

theorem KeepsLog.refl (store : ShareStore) : KeepsLog backend store store :=
  fun shares holds => ⟨shares, holds⟩

theorem KeepsLog.trans
    ⦃first middle last : ShareStore⦄
    (left : KeepsLog backend first middle)
    (right : KeepsLog backend middle last) :
    KeepsLog backend first last := by
  intro shares holds
  obtain ⟨later, laterHolds⟩ := left shares holds
  exact right later laterHolds

/-- Records that were written are those of the shares. -/
theorem encodes_of_rewriteRecords
    {shares : List Share}
    {seen : List ShareId}
    {bytes : List UInt8}
    (written : rewriteRecords backend seen shares = .ok bytes) :
    Encodes backend shares bytes := by
  induction shares generalizing seen bytes with
  | nil =>
      cases written
      exact .nil
  | cons share rest inductionHypothesis =>
      rw [rewriteRecords] at written
      obtain ⟨payload, sized, written⟩ := except_bind_eq_ok.mp written
      obtain ⟨id, keyed, written⟩ := except_bind_eq_ok.mp written
      obtain ⟨_, written⟩ := except_guard_eq_ok.mp written
      obtain ⟨later, laterWritten, same⟩ := except_bind_eq_ok.mp written
      cases same
      obtain ⟨serialized, isSerialized, checked⟩ := except_bind_eq_ok.mp sized
      obtain ⟨_, same⟩ := except_guard_eq_ok.mp checked
      cases same
      exact .cons isSerialized keyed (inductionHypothesis laterWritten)

theorem append_keepsLog
    (share : Share)
    (store : ShareStore) :
    KeepsLog backend store (finalState (append backend share store)) := by
  intro shares holds
  cases keyed : shareId backend share with
  | ok id =>
      obtain ⟨next, appended, _, nextHolds⟩ := append_holds holds keyed
      rw [appended]
      exact ⟨_, .inr nextHolds⟩
  | error thrown =>
      have unchanged : finalState (append backend share store) = store := by
        unfold append
        rw [keyed]
        cases recordPayload backend share <;> rfl
      rw [unchanged]
      exact ⟨shares, holds⟩

theorem rewrite_keepsLog
    (shares : List Share)
    (store : ShareStore) :
    KeepsLog backend store (finalState (rewrite backend shares store)) := by
  intro before holds
  have outcome :
      finalState (rewrite backend shares store) = store ∨
        ∃ bytes, rewriteRecords backend [] shares = .ok bytes ∧
          finalState (rewrite backend shares store) =
            { store with
              file := some (headerBytes store.expectedSidechainId ++ bytes) } := by
    unfold rewrite
    rw [get_bind_apply]
    cases written : rewriteRecords backend [] shares with
    | error thrown =>
        left
        cases store.file with
        | none => rfl
        | some content =>
            simp only
            split_ifs
            · rfl
            · cases verifyHeader store.expectedSidechainId content <;> rfl
    | ok bytes =>
        cases store.file with
        | none => exact .inr ⟨bytes, rfl, rfl⟩
        | some content =>
            simp only
            split_ifs
            · exact .inl rfl
            · cases verifyHeader store.expectedSidechainId content with
              | error thrown => exact .inl rfl
              | ok rest => exact .inr ⟨bytes, rfl, rfl⟩
  rcases outcome with unchanged | ⟨bytes, written, changed⟩
  · rw [unchanged]
    exact ⟨before, holds⟩
  · rw [changed]
    exact ⟨shares, .inr ⟨bytes, rfl, encodes_of_rewriteRecords written⟩⟩

theorem eraseRecords_keepsLog
    (ids : List ShareId)
    (store : ShareStore) :
    KeepsLog backend store (finalState (eraseRecords backend ids store)) := by
  unfold eraseRecords
  split_ifs
  · exact .refl store
  · rw [get_bind_apply]
    cases store.file with
    | none => exact .refl store
    | some content =>
        simp only
        split_ifs
        · exact .refl store
        · refine finalState_bind _ KeepsLog.trans ?_ ?_
          · rw [finalState_orThrow]
            exact .refl store
          · intro records middle verified
            refine finalState_bind _ KeepsLog.trans ?_ ?_
            · rw [finalState_orThrow]
              exact .refl middle
            · intro shares last read
              split_ifs
              · refine finalState_bind _ KeepsLog.trans
                  (rewrite_keepsLog _ last) fun _ final _ => ?_
                exact .refl final
              · exact .refl last

end Writing

/-- What a store writes is the log of some shares. -/
theorem Written.holds
    {store : ShareStore}
    (written : Written backend store) :
    ∃ shares, HoldsOrAbsent backend store shares := by
  obtain ⟨ops, same⟩ := written
  have keeps :
      ∀ (ops : List StoreOp) (start : ShareStore),
        KeepsLog backend start (ops.foldl (StoreOp.attempt backend) start) := by
    intro ops
    induction ops with
    | nil => exact fun start => .refl start
    | cons op rest inductionHypothesis =>
        intro start
        refine KeepsLog.trans ?_ (inductionHypothesis (op.attempt backend start))
        cases op with
        | append share => exact append_keepsLog share start
        | rewrite shares => exact rewrite_keepsLog shares start
        | erase ids =>
            refine finalState_bind _ KeepsLog.trans
              (eraseRecords_keepsLog ids start) fun _ final _ => ?_
            exact .refl final
  rw [same]
  exact keeps ops { store with file := none } [] (.inl ⟨rfl, rfl⟩)

section Repair

/-- The store with its file cut to a length. -/
def cutTo (store : ShareStore) (length : Nat) : ShareStore :=
  { store with file := store.file.map fun bytes => bytes.take length }

/-- Each share in order is reported as connected or as an orphan. -/
def TakesAll
    (backend : Backend) :
    List Share → ShareChain → ShareChain → Prop
  | [], chain, final => final = chain
  | share :: rest, chain, final =>
      ∃ added next,
        ShareChain.addShareUnchecked backend share chain = .ok added next ∧
          (added.disposition = .connected ∨ added.disposition = .orphan) ∧
          TakesAll backend rest next final

/-- A share the chain took has an identity. -/
theorem keyed_of_addShareUnchecked
    {share : Share}
    {chain next : ShareChain}
    {added : AddShareResult}
    (ran : ShareChain.addShareUnchecked backend share chain = .ok added next) :
    ∃ id, shareId backend share = .ok id := by
  unfold ShareChain.addShareUnchecked ShareChain.addPrevalidatedShare at ran
  obtain ⟨id, _, keyed, _⟩ := bind_eq_ok.mp ran
  exact ⟨id, (orThrow_eq_ok.mp keyed).1⟩

/-- Shares the chain takes have identities and are replayed to the same chain. -/
theorem TakesAll.replays
    {shares : List Share}
    {chain final : ShareChain}
    (takes : TakesAll backend shares chain final) :
    (∀ share ∈ shares, ∃ id, shareId backend share = .ok id) ∧
      replayShares backend shares chain = .ok () final := by
  induction shares generalizing chain with
  | nil =>
      cases takes
      exact ⟨by simp, rfl⟩
  | cons share rest inductionHypothesis =>
      obtain ⟨added, next, ran, taken, later⟩ := takes
      obtain ⟨keyed, replayed⟩ := inductionHypothesis later
      refine ⟨?_, ?_⟩
      · intro other member
        rcases List.mem_cons.mp member with rfl | member
        · exact keyed_of_addShareUnchecked ran
        · exact keyed other member
      · have one : replayShare backend share chain = .ok () next := by
          unfold replayShare
          rw [bind_of_ok ran]
          rcases taken with connected | orphan
          · rw [connected]
            rfl
          · rw [orphan]
            rfl
        rw [replayShares, bind_of_ok one]
        exact replayed

theorem replayShares_append
    {first second : List Share}
    {start middle : ShareChain}
    (replayed : replayShares backend first start = .ok () middle) :
    replayShares backend (first ++ second) start =
      replayShares backend second middle := by
  induction first generalizing start with
  | nil =>
      cases replayed
      rfl
  | cons share rest inductionHypothesis =>
      rw [replayShares] at replayed
      obtain ⟨_, next, one, later⟩ := bind_eq_ok.mp replayed
      rw [List.cons_append, replayShares, bind_of_ok one]
      exact inductionHypothesis later

/-- The first shares of a replay that goes through go through. -/
theorem replayShares_prefix
    {kept shares : List Share}
    {start final : ShareChain}
    (leading : kept <+: shares)
    (replayed : replayShares backend shares start = .ok () final) :
    ∃ middle, replayShares backend kept start = .ok () middle := by
  obtain ⟨rest, rfl⟩ := leading
  induction kept generalizing start with
  | nil => exact ⟨start, rfl⟩
  | cons share later inductionHypothesis =>
      rw [List.cons_append, replayShares] at replayed
      obtain ⟨_, next, one, replayed⟩ := bind_eq_ok.mp replayed
      obtain ⟨middle, reached⟩ := inductionHypothesis replayed
      refine ⟨middle, ?_⟩
      rw [replayShares, bind_of_ok one]
      exact reached

end Repair

section Cutting

/-- The records of the first shares are the first bytes of a log. -/
theorem Encodes.leading
    {shares kept : List Share}
    {bytes keptBytes : List UInt8}
    (keptEncodes : Encodes backend kept keptBytes)
    (encodes : Encodes backend shares bytes)
    (leading : kept <+: shares) :
    keptBytes <+: bytes := by
  obtain ⟨rest, rfl⟩ := leading
  induction keptEncodes generalizing bytes with
  | nil => exact List.nil_prefix
  | cons serialized keyed _ inductionHypothesis =>
      cases encodes with
      | cons otherSerialized otherKeyed later =>
          rw [serialized] at otherSerialized
          rw [keyed] at otherKeyed
          cases otherSerialized
          cases otherKeyed
          exact (List.prefix_append_right_inj _).mpr (inductionHypothesis later)

/-- The file of a log that is cut behind its header. -/
theorem cutTo_file
    {store : ShareStore}
    {bytes : List UInt8}
    (file : store.file = some (headerBytes store.expectedSidechainId ++ bytes))
    {length : Nat}
    (behindHeader : kShareStoreHeaderSize ≤ length) :
    (store.cutTo length).file =
      some (headerBytes store.expectedSidechainId ++
        bytes.take (length - kShareStoreHeaderSize)) := by
  have headerLength :
      (headerBytes store.expectedSidechainId).length = kShareStoreHeaderSize := by
    simp [headerBytes, hashBytes, kShareStoreMagic, kShareStoreHeaderSize]
  rw [cutTo, file, Option.map_some, List.take_append,
    List.take_of_length_le (by omega), headerLength]

/-- Loading a cut log replays its complete records, and a repair cuts it there. -/
theorem loadInto_cut
    {store : ShareStore}
    {shares : List Share}
    {bytes : List UInt8}
    (file : store.file = some (headerBytes store.expectedSidechainId ++ bytes))
    (encodes : Encodes backend shares bytes)
    {length : Nat}
    (behindHeader : kShareStoreHeaderSize ≤ length) :
    ∃ kept keptBytes,
      CompleteWithin backend shares (length - kShareStoreHeaderSize) kept keptBytes ∧
        ∀ repair start reloaded, replayShares backend kept start = .ok () reloaded →
          loadInto backend (store.cutTo length) repair start =
            if (store.cutTo length).file =
                some (headerBytes store.expectedSidechainId ++ keptBytes) then
              .ok (completeResult kept reloaded, store.cutTo length) reloaded
            else if repair then
              .ok ({ completeResult kept reloaded with truncatedTailRepaired := true },
                { store with
                  file := some
                    (headerBytes store.expectedSidechainId ++ keptBytes) }) reloaded
            else
              .error (.runtimeError "share store final record is truncated") reloaded := by
  obtain ⟨kept, keptBytes, complete, replays⟩ :=
    replayRecords_cut encodes (length - kShareStoreHeaderSize)
  refine ⟨kept, keptBytes, complete, ?_⟩
  intro repair start reloaded replayed
  have headerLength :
      (headerBytes store.expectedSidechainId).length = kShareStoreHeaderSize := by
    simp [headerBytes, hashBytes, kShareStoreMagic, kShareStoreHeaderSize]
  have cutFile := cutTo_file file behindHeader
  have sameId :
      (store.cutTo length).expectedSidechainId = store.expectedSidechainId := rfl
  have ended :=
    replays repair _ start
      (Nat.lt_succ_self (bytes.take (length - kShareStoreHeaderSize)).length)
  rw [bind_of_ok replayed] at ended
  have atBoundary :
      (store.cutTo length).file =
          some (headerBytes store.expectedSidechainId ++ keptBytes) ↔
        bytes.take (length - kShareStoreHeaderSize) = keptBytes := by
    rw [cutFile, Option.some_inj, List.append_cancel_left_eq]
  unfold loadInto
  rw [cutFile]
  simp only [if_neg (headerBytes_large store.expectedSidechainId _)]
  rw [sameId, bind_of_ok (orThrow_eq_ok.mpr
    ⟨verifyHeader_headerBytes store.expectedSidechainId _, rfl⟩)]
  rw [← cutFile]
  by_cases boundary : bytes.take (length - kShareStoreHeaderSize) = keptBytes
  · rw [if_pos (atBoundary.mpr boundary)]
    rw [endOfLoad, if_pos boundary] at ended
    rw [bind_of_ok ended]
    rfl
  · rw [if_neg fun same => boundary (atBoundary.mp same)]
    rw [endOfLoad, if_neg boundary] at ended
    cases repair with
    | false =>
        rw [bind_of_error ended]
        rfl
    | true =>
        rw [bind_of_ok ended]
        have repaired :
            (headerBytes store.expectedSidechainId ++
                bytes.take (length - kShareStoreHeaderSize)).take
                  (kShareStoreHeaderSize + keptBytes.length) =
              headerBytes store.expectedSidechainId ++ keptBytes := by
          obtain ⟨rest, split⟩ := complete.encodes.leading encodes complete.leading
          have within := complete.within
          have cut :
              bytes.take (length - kShareStoreHeaderSize) =
                keptBytes ++
                  rest.take (length - kShareStoreHeaderSize - keptBytes.length) := by
            rw [← split, List.take_append, List.take_of_length_le within]
          rw [cut, ← List.append_assoc]
          exact List.take_left' (by rw [List.length_append, headerLength])
        refine congrArg
          (fun content =>
            (EStateM.Result.ok
              ({ completeResult kept reloaded with truncatedTailRepaired := true },
                { store with file := some content }) reloaded :
                EStateM.Result Exception ShareChain
                  (ShareStoreLoadResult × ShareStore))) ?_
        exact repaired

/-- The file ends behind a number of complete records. -/
def EndsAtRecord
    (backend : Backend)
    (store : ShareStore)
    (shares : List Share) :
    Prop :=
  ∃ first firstBytes,
    first <+: shares ∧ Encodes backend first firstBytes ∧
      store.file = some (headerBytes store.expectedSidechainId ++ firstBytes)

/-- What loads of a cut log do, from a chain they start with. -/
structure Repaired
    (backend : Backend)
    (cut repaired : ShareStore)
    (start : ShareChain)
    (shares kept : List Share)
    (reloaded : ShareChain) :
    Prop where
  /-- The complete records are replayed in order. -/
  replayed : replayShares backend kept start = .ok () reloaded
  /-- A repairing load does not throw, and reports whether it cut bytes. -/
  repairs :
    loadInto backend cut true start =
      .ok ({ completeResult kept reloaded with
        truncatedTailRepaired := decide (cut.file ≠ repaired.file) }, repaired)
        reloaded
  /-- The repaired file loads to the same chain without a repair. -/
  again :
    ∀ repair, loadInto backend repaired repair start =
      .ok (completeResult kept reloaded, repaired) reloaded
  /-- Shares the chain takes can be appended and are loaded afterwards. -/
  appends :
    ∀ later final, TakesAll backend later reloaded final →
      ∃ next,
        appendAll backend later repaired = .ok () next ∧
          ∀ repair, loadInto backend next repair start =
            .ok (completeResult (kept ++ later) final, next) final
  /-- Without repair a load throws exactly where the cut is inside a record. -/
  strict :
    (∃ thrown final, loadInto backend cut false start = .error thrown final) ↔
      ¬ EndsAtRecord backend cut shares
  /-- A load without repair leaves the file alone. -/
  unchanged :
    ∀ result after final, loadInto backend cut false start = .ok (result, after) final →
      after = cut

/-- Behind the header a cut file ends at a record iff no bytes are left over. -/
theorem endsAtRecord_cut
    {store : ShareStore}
    {shares kept : List Share}
    {bytes keptBytes : List UInt8}
    (file : store.file = some (headerBytes store.expectedSidechainId ++ bytes))
    (encodes : Encodes backend shares bytes)
    {length : Nat}
    (behindHeader : kShareStoreHeaderSize ≤ length)
    (complete :
      CompleteWithin backend shares (length - kShareStoreHeaderSize) kept keptBytes) :
    EndsAtRecord backend (store.cutTo length) shares ↔
      (store.cutTo length).file =
        some (headerBytes store.expectedSidechainId ++ keptBytes) := by
  have cutFile := cutTo_file file behindHeader
  constructor
  · rintro ⟨first, firstBytes, leading, firstEncodes, ends⟩
    have cut : bytes.take (length - kShareStoreHeaderSize) = firstBytes :=
      List.append_cancel_left (Option.some.inj (cutFile.symm.trans ends))
    have within : firstBytes.length ≤ length - kShareStoreHeaderSize := by
      rw [← cut]
      exact List.length_take_le _ _
    have fewer := complete.maximal first firstBytes leading firstEncodes within
    have inner : firstBytes <+: keptBytes :=
      firstEncodes.leading complete.encodes
        (List.prefix_of_prefix_length_le leading complete.leading fewer)
    have outer : keptBytes <+: firstBytes := by
      rw [← cut]
      exact (List.prefix_take_iff).mpr
        ⟨complete.encodes.leading encodes complete.leading, complete.within⟩
    rw [ends, inner.eq_of_length_le outer.length_le]
    rfl
  · intro ends
    exact ⟨kept, keptBytes, complete.leading, complete.encodes, ends⟩

/-- A cut store is the store with the bytes that are left. -/
theorem cutTo_eq
    {store : ShareStore}
    {length : Nat}
    {content : List UInt8}
    (file : (store.cutTo length).file = some content) :
    store.cutTo length = { store with file := some content } := by
  rw [← file]
  rfl

/-- A log of a store is repaired exactly, wherever behind its header it is cut. -/
theorem truncatedLog_repaired
    {store : ShareStore}
    {content : List UInt8}
    {start accepted : ShareChain}
    {repair : Bool}
    {result : ShareStoreLoadResult × ShareStore}
    (written : Written backend store)
    (file : store.file = some content)
    (accepts : loadInto backend store repair start = .ok result accepted)
    {length : Nat}
    (behindHeader : kShareStoreHeaderSize ≤ length) :
    ∃ shares bytes kept keptBytes reloaded,
      content = headerBytes store.expectedSidechainId ++ bytes ∧
        Encodes backend shares bytes ∧
        CompleteWithin backend shares (length - kShareStoreHeaderSize) kept keptBytes ∧
        Repaired backend (store.cutTo length)
          { store with
            file := some (headerBytes store.expectedSidechainId ++ keptBytes) }
          start shares kept reloaded := by
  obtain ⟨shares, ⟨absent, _⟩ | holds⟩ := written.holds
  · rw [absent] at file
    cases file
  obtain ⟨bytes, isFile, encodes⟩ := id holds
  have shape : content = headerBytes store.expectedSidechainId ++ bytes :=
    Option.some.inj (file.symm.trans isFile)
  obtain ⟨kept, keptBytes, complete, loads⟩ :=
    loadInto_cut isFile encodes behindHeader
  have wholeReplay :
      ∃ final, replayShares backend shares start = .ok () final := by
    rw [loadInto_eq holds] at accepts
    cases replayed : replayShares backend shares start with
    | ok value final => exact ⟨final, rfl⟩
    | error thrown final =>
        rw [replayed] at accepts
        cases accepts
  obtain ⟨whole, wholeReplayed⟩ := wholeReplay
  obtain ⟨reloaded, replayed⟩ := replayShares_prefix complete.leading wholeReplayed
  have load := fun repair => loads repair start reloaded replayed
  have repairedHolds :
      Holds backend
        { store with
          file := some (headerBytes store.expectedSidechainId ++ keptBytes) } kept :=
    ⟨keptBytes, rfl, complete.encodes⟩
  have ends := endsAtRecord_cut isFile encodes behindHeader complete
  refine ⟨shares, bytes, kept, keptBytes, reloaded, shape, encodes, complete,
    replayed, ?_, ?_, ?_, ?_, ?_⟩
  · rw [load true]
    by_cases boundary :
        (store.cutTo length).file =
          some (headerBytes store.expectedSidechainId ++ keptBytes)
    · rw [if_pos boundary, cutTo_eq boundary]
      simp [completeResult]
    · rw [if_neg boundary, if_pos rfl]
      simp [boundary]
  · intro again
    rw [loadInto_eq repairedHolds, replayed]
  · intro later final takes
    obtain ⟨keyed, laterReplayed⟩ := takes.replays
    obtain ⟨next, appended, _, nextHolds⟩ :=
      appendAll_holds (.inr repairedHolds) keyed
    have holdsAll : Holds backend next (kept ++ later) := by
      rcases nextHolds with ⟨absent, none⟩ | present
      · obtain ⟨_, rfl⟩ := List.append_eq_nil_iff.mp none
        cases appended
        cases absent
      · exact present
    refine ⟨next, appended, fun again => ?_⟩
    rw [loadInto_eq holdsAll, replayShares_append replayed, laterReplayed]
  · rw [ends, load false]
    by_cases boundary :
        (store.cutTo length).file =
          some (headerBytes store.expectedSidechainId ++ keptBytes)
    · rw [if_pos boundary]
      simp [boundary]
    · rw [if_neg boundary]
      simp [boundary]
  · intro other after final strict
    rw [load false] at strict
    by_cases boundary :
        (store.cutTo length).file =
          some (headerBytes store.expectedSidechainId ++ keptBytes)
    · rw [if_pos boundary] at strict
      cases strict
      rfl
    · rw [if_neg boundary] at strict
      cases strict

end Cutting

section Samples

/-- A child of the sample root in the second version. -/
def samplePaidChild : Share :=
  { sampleShare 1 1 1 1 with
    version := 2
    minerId := 1
    payout := some { spendPublicKey := 7, viewPublicKey := 7 } }

def sampleAppends : List StoreOp :=
  [.append (sampleShare 0 0 0 1), .append samplePaidChild]

/-- A store that logged a share of the first version and one of the second. -/
def sampleLog : ShareStore :=
  sampleAppends.foldl (StoreOp.attempt easyBackend) sampleStore

/-- Cut inside its second record, the log is repaired to the first one. -/
theorem truncatedLog_repaired_sample :
    ∃ shares bytes kept keptBytes reloaded,
      sampleLog.file.getD [] = headerBytes sampleLog.expectedSidechainId ++ bytes ∧
        Encodes easyBackend shares bytes ∧
        CompleteWithin easyBackend shares (400 - kShareStoreHeaderSize) kept
          keptBytes ∧
        Repaired easyBackend (sampleLog.cutTo 400)
          { sampleLog with
            file := some
              (headerBytes sampleLog.expectedSidechainId ++ keptBytes) }
          sampleStart shares kept reloaded ∧
        kept.length = 1 := by
  have file : sampleLog.file = some (sampleLog.file.getD []) := by
    decide +kernel
  have loads :
      returned (loadInto easyBackend sampleLog true sampleStart) =
        some ({ recordsLoaded := 2, connectedShares := 2, bestTipId := some 2 },
          sampleLog) := by
    decide +kernel
  have cutLoads :
      (returned (loadInto easyBackend (sampleLog.cutTo 400) true
        sampleStart)).map (fun loaded => loaded.1.recordsLoaded) = some 1 := by
    decide +kernel
  have written : Written easyBackend sampleLog :=
    ⟨sampleAppends, by decide +kernel⟩
  have behindHeader : kShareStoreHeaderSize ≤ 400 := by
    decide
  obtain ⟨shares, bytes, kept, keptBytes, reloaded, split, encodes, complete,
    repaired⟩ :=
    truncatedLog_repaired written file (eq_ok_of_returned loads) behindHeader
  refine ⟨shares, bytes, kept, keptBytes, reloaded, split, encodes, complete,
    repaired, ?_⟩
  rw [repaired.repairs] at cutLoads
  exact Option.some.inj cutLoads

end Samples

end ShareStore

end ZanoP2pool
