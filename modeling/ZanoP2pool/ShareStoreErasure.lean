import ZanoP2pool.ShareBytes
import ZanoP2pool.ShareStoreRepair

namespace ZanoP2pool

open Foundation

/-!
# Erasing records from the log of a running node

The records are decoded, filtered and encoded again.  The encoding is canonical,
so the bytes of the records that stay are the bytes they had.  The new log is
written beside the old one and replaces it by a rename, after which nothing can
fail.
-/

/-- A store and the file its rewrites are prepared in. -/
structure StoreFiles where
  store : ShareStore
  temporary : Option (List UInt8)
  deriving Repr, DecidableEq

abbrev StoreFilesM := EStateM Exception StoreFiles

/-- The calls of the file system that fail while records are erased. -/
structure StoreFaults where
  fileSize : Bool := false
  openSource : Bool := false
  openExisting : Bool := false
  createDirectories : Bool := false
  createTemporary : Bool := false
  writeTemporary : Bool := false
  closeTemporary : Bool := false
  rename : Bool := false
  deriving Repr, DecidableEq

/-- Throw where the file system does. -/
def failIf (fault : Bool) (what : String) : StoreFilesM Unit :=
  if fault then throw (.runtimeError what) else return ()

namespace StoreFiles

/-- Write the new log beside the old one and install it. -/
def installRecords
    (backend : Backend)
    (faults : StoreFaults)
    (shares : List Share) :
    StoreFilesM Unit := do
  failIf faults.createTemporary "failed to create share store rewrite"
  modify fun files =>
    { files with
      temporary := some (ShareStore.headerBytes files.store.expectedSidechainId) }
  let records ← orThrow (ShareStore.rewriteRecords backend [] shares)
  failIf faults.writeTemporary "failed to write share store rewrite"
  modify fun files =>
    { files with
      temporary := some
        (ShareStore.headerBytes files.store.expectedSidechainId ++ records) }
  failIf faults.closeTemporary "failed to close share store rewrite"
  failIf faults.rename "failed to install share store rewrite: "
  modify fun files =>
    { store := { files.store with file := files.temporary }, temporary := none }

def rewriteUnlocked
    (backend : Backend)
    (faults : StoreFaults)
    (shares : List Share) :
    StoreFilesM Unit := do
  let files ← get
  match files.store.file with
  | none => pure ()
  | some bytes =>
      if bytes.length < kShareStoreHeaderSize then
        throw (.runtimeError "existing share store header is truncated")
      failIf faults.openExisting "failed to open existing share store"
      let _ ← orThrow
        (ShareStore.verifyHeader files.store.expectedSidechainId bytes)
  failIf faults.createDirectories "cannot create directories"
  try
    installRecords backend faults shares
  catch thrown =>
    modify fun files => { files with temporary := none }
    throw thrown

def eraseRecords
    (backend : Backend)
    (faults : StoreFaults)
    (ids : List ShareId) :
    StoreFilesM Nat := do
  if ids.isEmpty then
    return 0
  let files ← get
  match files.store.file with
  | none => return 0
  | some bytes =>
      failIf faults.fileSize "cannot get file size"
      if bytes.length < kShareStoreHeaderSize then
        throw (.runtimeError "share store header is truncated")
      failIf faults.openSource "failed to open share store for record erase"
      let records ← orThrow
        (ShareStore.verifyHeader files.store.expectedSidechainId bytes)
      let shares ← orThrow
        (ShareStore.readAllRecords backend (records.length + 1) [] records)
      let removed := shares.filter fun item => item.1 ∈ ids
      let retained := shares.filter fun item => item.1 ∉ ids
      if removed.length ≠ 0 then
        rewriteUnlocked backend faults (retained.map Prod.snd)
      return removed.length

end StoreFiles

/-- One record of a log: the bytes of a share and the identity behind them. -/
structure StoredRecord where
  payload : List UInt8
  id : ShareId
  deriving Repr, DecidableEq

namespace StoredRecord

def bytes (record : StoredRecord) : List UInt8 :=
  ShareStore.recordBytes record.payload record.id

/-- The record is one that a reader accepts. -/
def WellFormed (backend : Backend) (record : StoredRecord) : Prop :=
  ∃ share, ShareStore.decodeRecord backend record.payload record.id = .ok share

end StoredRecord

namespace ShareStore

variable {backend : Backend}

/-- A content is the header of a sidechain and complete, distinct records. -/
structure IsLog
    (backend : Backend)
    (sidechainId : SidechainId)
    (content : List UInt8)
    (records : List StoredRecord) :
    Prop where
  layout :
    content = headerBytes sidechainId ++ records.flatMap StoredRecord.bytes
  wellFormed : ∀ record ∈ records, record.WellFormed backend
  distinct : (records.map StoredRecord.id).Nodup

section Reading

theorem decodeRecord_eq_ok
    {payload : List UInt8}
    {id : ShareId}
    {share : Share} :
    decodeRecord backend payload id = .ok share ↔
      serializeShare backend share = .ok payload ∧ shareId backend share = .ok id := by
  constructor
  · intro decoded
    unfold decodeRecord at decoded
    obtain ⟨found, parsed, decoded⟩ := except_bind_eq_ok.mp decoded
    obtain ⟨own, keyed, decoded⟩ := except_bind_eq_ok.mp decoded
    obtain ⟨same, decoded⟩ := except_guard_eq_ok.mp decoded
    cases decoded
    rw [not_not] at same
    subst same
    exact ⟨serializeShare_deserializeShare parsed, keyed⟩
  · rintro ⟨serialized, keyed⟩
    exact decodeRecord_eq serialized keyed

/-- What a reader takes for a record is one, followed by what it leaves. -/
theorem nextRecord_eq_complete
    {bytes payload rest : List UInt8}
    {id : ShareId}
    (read : nextRecord bytes = .ok (.complete payload id rest)) :
    bytes = recordBytes payload id ++ rest := by
  unfold nextRecord at read
  dsimp only at read
  split_ifs at read with empty short strange shortPayload shortId
  all_goals cases read
  have length : (bytes.take 4).length = 4 := by
    rw [List.length_take]
    omega
  have announced :
      ((bytes.drop 4).take (ofBigEndian (bytes.take 4))).length =
        ofBigEndian (bytes.take 4) := by
    rw [List.length_take]
    omega
  have lengthBytes := bigEndian_ofBigEndian (bytes.take 4)
  rw [length] at lengthBytes
  have idLength :
      (((bytes.drop 4).drop (ofBigEndian (bytes.take 4))).take 32).length = 32 := by
    rw [List.length_take]
    omega
  have fits :=
    ofBigEndian_lt (((bytes.drop 4).drop (ofBigEndian (bytes.take 4))).take 32)
  have idBytes :=
    bigEndian_ofBigEndian
      (((bytes.drop 4).drop (ofBigEndian (bytes.take 4))).take 32)
  rw [idLength] at fits idBytes
  rw [recordBytes, announced, lengthBytes, hashBytes_ofNat fits, idBytes,
    List.append_assoc, List.take_append_drop, List.append_assoc,
    List.take_append_drop, List.take_append_drop]

/-- A header that is verified is the header of the sidechain. -/
theorem verifyHeader_eq_ok
    {sidechainId : SidechainId}
    {bytes rest : List UInt8} :
    verifyHeader sidechainId bytes = .ok rest ↔
      bytes = headerBytes sidechainId ++ rest := by
  constructor
  · intro verified
    unfold verifyHeader at verified
    dsimp only at verified
    split_ifs at verified with magic short other
    all_goals cases verified
    rw [not_not] at magic other
    have idLength :
        ((bytes.drop kShareStoreMagic.length).take 32).length = 32 := by
      rw [List.length_take]
      omega
    have fits := ofBigEndian_lt ((bytes.drop kShareStoreMagic.length).take 32)
    have idBytes :=
      bigEndian_ofBigEndian ((bytes.drop kShareStoreMagic.length).take 32)
    rw [idLength] at fits idBytes
    rw [headerBytes, ← other, hashBytes_ofNat fits, idBytes, List.append_assoc,
      List.take_append_drop]
    nth_rewrite 1 [← magic]
    rw [List.take_append_drop]
  · rintro rfl
    exact verifyHeader_headerBytes sidechainId rest

/-- The first record of a log is read, if a reader accepts it. -/
theorem nextRecord_wellFormed
    {record : StoredRecord}
    (wellFormed : record.WellFormed backend)
    (rest : List UInt8) :
    nextRecord (record.bytes ++ rest) =
      .ok (.complete record.payload record.id rest) := by
  obtain ⟨share, decoded⟩ := wellFormed
  exact nextRecord_recordBytes (decodeRecord_eq_ok.mp decoded).1 record.id rest

/-- What is read without complaint are complete, distinct records. -/
theorem readAllRecords_eq_ok
    {budget : Nat}
    {seen : List ShareId}
    {bytes : List UInt8}
    {items : List (ShareId × Share)}
    (enough : bytes.length < budget) :
    readAllRecords backend budget seen bytes = .ok items ↔
      ∃ records : List StoredRecord,
        bytes = records.flatMap StoredRecord.bytes ∧
          List.Forall₂
            (fun record item =>
              item.1 = record.id ∧
                decodeRecord backend record.payload record.id = .ok item.2)
            records items ∧
          (records.map StoredRecord.id).Nodup ∧
          ∀ record ∈ records, record.id ∉ seen := by
  induction budget generalizing seen bytes items with
  | zero => cases enough
  | succ budget inductionHypothesis =>
      constructor
      · intro read
        rw [readAllRecords] at read
        obtain ⟨found, isNext, read⟩ := except_bind_eq_ok.mp read
        cases found with
        | finished =>
            cases read
            have none : bytes = [] := by
              unfold nextRecord at isNext
              dsimp only at isNext
              split_ifs at isNext with empty
              all_goals first | exact empty | cases isNext
            exact ⟨[], none, .nil, List.nodup_nil, by simp⟩
        | truncated => cases read
        | complete payload id rest =>
            obtain ⟨share, decoded, read⟩ := except_bind_eq_ok.mp read
            obtain ⟨unseen, read⟩ := except_guard_eq_ok.mp read
            obtain ⟨later, laterRead, same⟩ := except_bind_eq_ok.mp read
            cases same
            have shape := nextRecord_eq_complete isNext
            have shorter : rest.length < budget := by
              rw [shape, List.length_append, length_recordBytes] at enough
              omega
            obtain ⟨records, layout, paired, distinct, laterUnseen⟩ :=
              (inductionHypothesis shorter).mp laterRead
            refine ⟨⟨payload, id⟩ :: records, ?_, .cons ⟨rfl, decoded⟩ paired, ?_, ?_⟩
            · rw [shape, layout, List.flatMap_cons]
              rfl
            · rw [List.map_cons, List.nodup_cons]
              refine ⟨?_, distinct⟩
              intro member
              obtain ⟨record, inRecords, same⟩ := List.mem_map.mp member
              exact laterUnseen record inRecords (same ▸ List.mem_cons_self ..)
            · intro record member
              rcases List.mem_cons.mp member with rfl | inRecords
              · exact unseen
              · exact fun isSeen => laterUnseen record inRecords
                  (List.mem_cons_of_mem id isSeen)
      · rintro ⟨records, rfl, paired, distinct, unseen⟩
        cases paired with
        | nil => rfl
        | @cons record item records items first paired =>
            obtain ⟨isId, decoded⟩ := first
            have wellFormed : record.WellFormed backend := ⟨_, decoded⟩
            rw [List.map_cons, List.nodup_cons] at distinct
            have shorter :
                (records.flatMap StoredRecord.bytes).length < budget := by
              rw [List.flatMap_cons, List.length_append, StoredRecord.bytes,
                length_recordBytes] at enough
              omega
            have laterRead :
                readAllRecords backend budget (record.id :: seen)
                    (records.flatMap StoredRecord.bytes) = .ok items := by
              refine (inductionHypothesis shorter).mpr
                ⟨records, rfl, paired, distinct.2, ?_⟩
              intro other member isSeen
              rcases List.mem_cons.mp isSeen with same | isSeen
              · exact distinct.1 (List.mem_map.mpr ⟨other, member, same⟩)
              · exact unseen other (List.mem_cons_of_mem record member) isSeen
            rw [readAllRecords, List.flatMap_cons, nextRecord_wellFormed wellFormed]
            simp only [bind, Except.bind, decoded,
              if_neg (unseen record (List.mem_cons_self ..)), laterRead]
            rw [← isId]
            rfl

end Reading

section Installing

/-- A computation throws and leaves the log alone, or installs the given log. -/
inductive Installs
    (files : StoreFiles)
    (content : List UInt8) :
    EStateM.Result Exception StoreFiles Unit → Prop where
  | threw
      (thrown : Exception)
      (final : StoreFiles)
      (unchanged : final.store = files.store) :
      Installs files content (.error thrown final)
  | installed :
      Installs files content
        (.ok () ⟨{ files.store with file := some content }, none⟩)

theorem installRecords_outcome
    (faults : StoreFaults)
    {shares : List Share}
    {records : List UInt8}
    (encoded : rewriteRecords backend [] shares = .ok records)
    (files : StoreFiles) :
    Installs files (headerBytes files.store.expectedSidechainId ++ records)
      (StoreFiles.installRecords backend faults shares files) := by
  unfold StoreFiles.installRecords failIf
  rw [encoded]
  cases faults.createTemporary
  · cases faults.writeTemporary
    · cases faults.closeTemporary
      · cases faults.rename
        · exact .installed
        · exact .threw _ _ rfl
      · exact .threw _ _ rfl
    · exact .threw _ _ rfl
  · exact .threw _ _ rfl

/-- Removing the temporary file changes nothing about the log. -/
theorem guardedInstall_outcome
    (faults : StoreFaults)
    {shares : List Share}
    {records : List UInt8}
    (encoded : rewriteRecords backend [] shares = .ok records)
    (files : StoreFiles) :
    Installs files (headerBytes files.store.expectedSidechainId ++ records)
      ((do
        try
          StoreFiles.installRecords backend faults shares
        catch thrown =>
          modify fun files => { files with temporary := none }
          throw thrown : StoreFilesM Unit) files) := by
  have outcome := installRecords_outcome faults encoded files
  show Installs _ _
    (EStateM.tryCatch (StoreFiles.installRecords backend faults shares) _ files)
  unfold EStateM.tryCatch
  cases run : StoreFiles.installRecords backend faults shares files with
  | ok value final =>
      rw [run] at outcome
      cases outcome
      exact .installed
  | error thrown final =>
      rw [run] at outcome
      cases outcome with
      | threw thrown final unchanged => exact .threw _ _ unchanged

theorem rewriteUnlocked_outcome
    (faults : StoreFaults)
    {shares : List Share}
    {records : List UInt8}
    (encoded : rewriteRecords backend [] shares = .ok records)
    (files : StoreFiles) :
    Installs files (headerBytes files.store.expectedSidechainId ++ records)
      (StoreFiles.rewriteUnlocked backend faults shares files) := by
  have guarded := guardedInstall_outcome faults encoded files
  unfold StoreFiles.rewriteUnlocked failIf
  rw [get_bind_apply]
  cases files.store.file with
  | none =>
      cases faults.createDirectories
      · exact guarded
      · exact .threw _ _ rfl
  | some content =>
      by_cases short : content.length < kShareStoreHeaderSize
      · simp only [if_pos short]
        exact .threw _ _ rfl
      · simp only [if_neg short]
        cases faults.openExisting
        · cases verifyHeader files.store.expectedSidechainId content with
          | error thrown => exact .threw _ _ rfl
          | ok rest =>
              cases faults.createDirectories
              · exact guarded
              · exact .threw _ _ rfl
        · exact .threw _ _ rfl

/-- Without a fault the rewrite of a log installs the new one. -/
theorem rewriteUnlocked_ok
    {shares : List Share}
    {records rest : List UInt8}
    (encoded : rewriteRecords backend [] shares = .ok records)
    {files : StoreFiles}
    (file :
      files.store.file = some (headerBytes files.store.expectedSidechainId ++ rest)) :
    StoreFiles.rewriteUnlocked backend {} shares files =
      .ok () ⟨{ files.store with
        file := some (headerBytes files.store.expectedSidechainId ++ records) },
        none⟩ := by
  unfold StoreFiles.rewriteUnlocked StoreFiles.installRecords failIf
  rw [get_bind_apply, file, encoded]
  simp only [if_neg (headerBytes_large files.store.expectedSidechainId rest),
    verifyHeader_headerBytes]
  rfl

end Installing

section Erasing

/-- A record of the log with what was read of it. -/
abbrev ReadAs (backend : Backend) (record : StoredRecord) (item : ShareId × Share) :
    Prop :=
  item.1 = record.id ∧
    decodeRecord backend record.payload record.id = .ok item.2

/-- Decoded records are encoded to the bytes they were. -/
theorem rewriteRecords_read
    {records : List StoredRecord}
    {items : List (ShareId × Share)}
    (paired : List.Forall₂ (ReadAs backend) records items)
    (distinct : (records.map StoredRecord.id).Nodup)
    (seen : List ShareId)
    (unseen : ∀ record ∈ records, record.id ∉ seen) :
    rewriteRecords backend seen (items.map Prod.snd) =
      .ok (records.flatMap StoredRecord.bytes) := by
  induction paired generalizing seen with
  | nil => rfl
  | @cons record item records items first _ inductionHypothesis =>
      obtain ⟨serialized, keyed⟩ := decodeRecord_eq_ok.mp first.2
      rw [List.map_cons, List.nodup_cons] at distinct
      have later := inductionHypothesis distinct.2 (record.id :: seen) (by
        intro other member isSeen
        rcases List.mem_cons.mp isSeen with same | isSeen
        · exact distinct.1 (List.mem_map.mpr ⟨other, member, same⟩)
        · exact unseen other (List.mem_cons_of_mem record member) isSeen)
      simp only [List.map_cons, rewriteRecords, recordPayload_eq serialized, keyed,
        later, bind, Except.bind, if_neg (unseen record (List.mem_cons_self ..))]
      rfl

/-- Records and what was read of them are filtered alike. -/
theorem filter_read
    {records : List StoredRecord}
    {items : List (ShareId × Share)}
    (paired : List.Forall₂ (ReadAs backend) records items)
    (chosen : ShareId → Bool) :
    List.Forall₂ (ReadAs backend) (records.filter fun record => chosen record.id)
      (items.filter fun item => chosen item.1) := by
  induction paired with
  | nil => exact .nil
  | @cons record item records items first _ inductionHypothesis =>
      rw [List.filter_cons, List.filter_cons, first.1]
      by_cases isChosen : chosen record.id = true
      · rw [if_pos isChosen, if_pos isChosen]
        exact .cons first inductionHypothesis
      · rw [if_neg isChosen, if_neg isChosen]
        exact inductionHypothesis

/-- The records that an erase leaves in a log. -/
def kept (ids : List ShareId) (records : List StoredRecord) : List StoredRecord :=
  records.filter fun record => record.id ∉ ids

/-- The store of a log with the named records removed. -/
def erased
    (store : ShareStore)
    (ids : List ShareId)
    (records : List StoredRecord) :
    ShareStore :=
  { store with
    file := some
      (headerBytes store.expectedSidechainId ++
        (kept ids records).flatMap StoredRecord.bytes) }

/-- How an erase can end: with the log as it was, or with the records removed. -/
inductive EraseOutcome
    (backend : Backend)
    (files : StoreFiles)
    (ids : List ShareId) :
    EStateM.Result Exception StoreFiles Nat → Prop where
  | threw
      (thrown : Exception)
      (final : StoreFiles)
      (unchanged : final.store = files.store) :
      EraseOutcome backend files ids (.error thrown final)
  | nothing
      (reason : ids = [] ∨ files.store.file = none) :
      EraseOutcome backend files ids (.ok 0 files)
  | removed
      {content : List UInt8}
      {records : List StoredRecord}
      {final : StoreFiles}
      (file : files.store.file = some content)
      (isLog : IsLog backend files.store.expectedSidechainId content records)
      (result : final.store = erased files.store ids records) :
      EraseOutcome backend files ids
        (.ok (records.countP fun record => record.id ∈ ids) final)

/-- A log without one of the named records stays as it is. -/
theorem erased_of_absent
    {store : ShareStore}
    {content : List UInt8}
    {records : List StoredRecord}
    {ids : List ShareId}
    (file : store.file = some content)
    (isLog : IsLog backend store.expectedSidechainId content records)
    (absent : records.countP (fun record => record.id ∈ ids) = 0) :
    store = erased store ids records := by
  have all : kept ids records = records := by
    apply List.filter_eq_self.mpr
    intro record member
    have unnamed := List.countP_eq_zero.mp absent record member
    simpa using unnamed
  rw [erased, all, ← isLog.layout, ← file]

theorem exists_read
    {records : List StoredRecord}
    {items : List (ShareId × Share)}
    (paired : List.Forall₂ (ReadAs backend) records items)
    {record : StoredRecord}
    (member : record ∈ records) :
    ∃ item ∈ items, ReadAs backend record item := by
  induction paired with
  | nil => cases member
  | cons first _ inductionHypothesis =>
      rcases List.mem_cons.mp member with rfl | later
      · exact ⟨_, List.mem_cons_self .., first⟩
      · obtain ⟨item, inItems, found⟩ := inductionHypothesis later
        exact ⟨item, List.mem_cons_of_mem _ inItems, found⟩

theorem eraseRecords_outcome
    (faults : StoreFaults)
    (ids : List ShareId)
    (files : StoreFiles) :
    EraseOutcome backend files ids
      (StoreFiles.eraseRecords backend faults ids files) := by
  unfold StoreFiles.eraseRecords
  by_cases none : ids.isEmpty = true
  · rw [if_pos none]
    exact .nothing (.inl (List.isEmpty_iff.mp none))
  rw [if_neg none, get_bind_apply]
  cases file : files.store.file with
  | none => exact .nothing (.inr file)
  | some content =>
      simp only [failIf]
      cases faults.fileSize
      swap
      · exact .threw _ _ rfl
      by_cases short : content.length < kShareStoreHeaderSize
      · simp only [if_pos short]
        exact .threw _ _ rfl
      simp only [if_neg short]
      cases faults.openSource
      swap
      · exact .threw _ _ rfl
      cases verified : verifyHeader files.store.expectedSidechainId content with
      | error thrown => exact .threw _ _ rfl
      | ok rest =>
          cases read : readAllRecords backend (rest.length + 1) [] rest with
          | error thrown =>
              simp only [Bool.false_eq_true, if_false, bind_apply, pure_apply,
                orThrow_ok, read, orThrow_error]
              exact .threw _ _ rfl
          | ok items =>
              obtain ⟨records, layout, paired, distinct, _⟩ :=
                (readAllRecords_eq_ok (Nat.lt_succ_self _)).mp read
              have isLog :
                  IsLog backend files.store.expectedSidechainId content records :=
                ⟨layout ▸ verifyHeader_eq_ok.mp verified,
                  fun record member => by
                    obtain ⟨item, _, found⟩ := exists_read paired member
                    exact ⟨item.2, found.2⟩,
                  distinct⟩
              have count :
                  (items.filter fun item => item.1 ∈ ids).length =
                    records.countP fun record => record.id ∈ ids := by
                rw [List.countP_eq_length_filter]
                exact (filter_read paired fun id => id ∈ ids).length_eq.symm
              have encoded :
                  rewriteRecords backend []
                      ((items.filter fun item => item.1 ∉ ids).map Prod.snd) =
                    .ok ((kept ids records).flatMap StoredRecord.bytes) :=
                rewriteRecords_read (filter_read paired fun id => id ∉ ids)
                  (distinct.sublist (List.filter_sublist.map _)) [] (by simp)
              simp only [Bool.false_eq_true, if_false, bind_apply, pure_apply,
                orThrow_ok, read, count]
              by_cases touched :
                  records.countP (fun record => record.id ∈ ids) ≠ 0
              · have outcome := rewriteUnlocked_outcome faults encoded files
                rw [if_pos touched, bind_apply]
                cases run :
                    StoreFiles.rewriteUnlocked backend faults
                      ((items.filter fun item => item.1 ∉ ids).map Prod.snd)
                      files with
                | error thrown final =>
                    rw [run] at outcome
                    cases outcome with
                    | threw thrown final unchanged => exact .threw _ _ unchanged
                | ok value final =>
                    rw [run] at outcome
                    cases outcome
                    exact .removed file isLog rfl
              · rw [if_neg touched]
                rw [not_not] at touched
                exact .removed file isLog (erased_of_absent file isLog touched)

/-- Well-formed records can be read. -/
theorem exists_items
    {records : List StoredRecord}
    (wellFormed : ∀ record ∈ records, record.WellFormed backend) :
    ∃ items, List.Forall₂ (ReadAs backend) records items := by
  induction records with
  | nil => exact ⟨[], .nil⟩
  | cons record rest inductionHypothesis =>
      obtain ⟨share, decoded⟩ := wellFormed record (List.mem_cons_self ..)
      obtain ⟨items, paired⟩ :=
        inductionHypothesis fun other member =>
          wellFormed other (List.mem_cons_of_mem record member)
      exact ⟨(record.id, share) :: items, .cons ⟨rfl, decoded⟩ paired⟩

/-- Without a fault the named records of a log are removed and counted. -/
theorem eraseRecords_ok
    {files : StoreFiles}
    {content : List UInt8}
    {records : List StoredRecord}
    (file : files.store.file = some content)
    (isLog : IsLog backend files.store.expectedSidechainId content records)
    (ids : List ShareId) :
    ∃ final,
      StoreFiles.eraseRecords backend {} ids files =
          .ok (records.countP fun record => record.id ∈ ids) final ∧
        final.store = erased files.store ids records := by
  obtain ⟨items, paired⟩ := exists_items isLog.wellFormed
  have read :
      readAllRecords backend
          ((records.flatMap StoredRecord.bytes).length + 1) []
          (records.flatMap StoredRecord.bytes) =
        .ok items :=
    (readAllRecords_eq_ok (Nat.lt_succ_self _)).mpr
      ⟨records, rfl, paired, isLog.distinct, by simp⟩
  have count :
      (items.filter fun item => item.1 ∈ ids).length =
        records.countP fun record => record.id ∈ ids := by
    rw [List.countP_eq_length_filter]
    exact (filter_read paired fun id => id ∈ ids).length_eq.symm
  have encoded :
      rewriteRecords backend []
          ((items.filter fun item => item.1 ∉ ids).map Prod.snd) =
        .ok ((kept ids records).flatMap StoredRecord.bytes) :=
    rewriteRecords_read (filter_read paired fun id => id ∉ ids)
      (isLog.distinct.sublist (List.filter_sublist.map _)) [] (by simp)
  have shape := file
  rw [isLog.layout] at shape
  unfold StoreFiles.eraseRecords
  by_cases none : ids.isEmpty = true
  · rw [List.isEmpty_iff] at none
    subst none
    have zero : records.countP (fun record => record.id ∈ ([] : List ShareId)) = 0 := by
      simp
    rw [zero]
    exact ⟨files, rfl, erased_of_absent file isLog zero⟩
  rw [if_neg none, get_bind_apply, shape]
  simp only [failIf, if_neg (headerBytes_large files.store.expectedSidechainId _),
    verifyHeader_headerBytes, Bool.false_eq_true, if_false, bind_apply, pure_apply,
    orThrow_ok, read, count]
  by_cases touched : records.countP (fun record => record.id ∈ ids) ≠ 0
  · rw [if_pos touched, bind_apply, rewriteUnlocked_ok encoded shape]
    exact ⟨_, rfl, rfl⟩
  · rw [if_neg touched]
    rw [not_not] at touched
    exact ⟨files, rfl, erased_of_absent file isLog touched⟩

/-- The log that an erase leaves is a log of the records that are left. -/
theorem IsLog.erased
    {store : ShareStore}
    {content : List UInt8}
    {records : List StoredRecord}
    (isLog : IsLog backend store.expectedSidechainId content records)
    (ids : List ShareId) :
    IsLog backend store.expectedSidechainId
      (headerBytes store.expectedSidechainId ++
        (kept ids records).flatMap StoredRecord.bytes)
      (kept ids records) :=
  ⟨rfl,
    fun record member => isLog.wellFormed record (List.mem_of_mem_filter member),
    isLog.distinct.sublist (List.filter_sublist.map _)⟩

theorem kept_append
    (ids others : List ShareId)
    (records : List StoredRecord) :
    kept others (kept ids records) = kept (ids ++ others) records := by
  rw [kept, kept, kept, List.filter_filter]
  refine List.filter_congr fun record _ => ?_
  simp [not_or]
  exact Bool.and_comm _ _

theorem countP_append
    (ids others : List ShareId)
    (records : List StoredRecord) :
    records.countP (fun record => record.id ∈ ids) +
        (kept ids records).countP (fun record => record.id ∈ others) =
      records.countP fun record => record.id ∈ ids ++ others := by
  induction records with
  | nil => rfl
  | cons record rest inductionHypothesis =>
      simp only [kept, List.countP_cons, List.filter_cons] at inductionHypothesis ⊢
      by_cases first : record.id ∈ ids
      · simp [first]
        simp at inductionHypothesis
        omega
      · by_cases second : record.id ∈ others
        · simp [first, second]
          simp at inductionHypothesis
          omega
        · simp [first, second]
          simp at inductionHypothesis
          omega

end Erasing

section Faultless

/-- Two computations of one log end alike and leave the same log. -/
inductive SameOutcome {α : Type} :
    EStateM.Result Exception ShareStore α →
      EStateM.Result Exception StoreFiles α → Prop where
  | returned (value : α) (files : StoreFiles) :
      SameOutcome (.ok value files.store) (.ok value files)
  | threw (thrown : Exception) (files : StoreFiles) :
      SameOutcome (.error thrown files.store) (.error thrown files)

/-- Where no call fails, a rewrite is the replacement of the log's content. -/
theorem rewriteUnlocked_faultless
    (shares : List Share)
    (files : StoreFiles) :
    SameOutcome (rewrite backend shares files.store)
      (StoreFiles.rewriteUnlocked backend {} shares files) := by
  have installs :
      SameOutcome
        ((do
          let records ← orThrow (rewriteRecords backend [] shares)
          set { files.store with
            file := some
              (headerBytes files.store.expectedSidechainId ++ records) } :
          StoreM Unit) files.store)
        ((do
          try
            StoreFiles.installRecords backend {} shares
          catch thrown =>
            modify fun files => { files with temporary := none }
            throw thrown : StoreFilesM Unit) files) := by
    show SameOutcome _
      (EStateM.tryCatch (StoreFiles.installRecords backend {} shares) _ files)
    unfold EStateM.tryCatch StoreFiles.installRecords failIf
    cases rewriteRecords backend [] shares with
    | error thrown => exact .threw thrown ⟨files.store, none⟩
    | ok records => exact .returned () ⟨_, none⟩
  unfold rewrite StoreFiles.rewriteUnlocked failIf
  rw [get_bind_apply, get_bind_apply]
  cases files.store.file with
  | none => exact installs
  | some content =>
      by_cases short : content.length < kShareStoreHeaderSize
      · simp only [if_pos short]
        exact .threw _ files
      · simp only [if_neg short]
        cases verifyHeader files.store.expectedSidechainId content with
        | error thrown => exact .threw thrown files
        | ok rest => exact installs

/-- Where no call fails, an erase is the erase of the log's content. -/
theorem eraseRecords_faultless
    (ids : List ShareId)
    (files : StoreFiles) :
    SameOutcome (eraseRecords backend ids files.store)
      (StoreFiles.eraseRecords backend {} ids files) := by
  unfold eraseRecords StoreFiles.eraseRecords failIf
  by_cases none : ids.isEmpty = true
  · simp only [if_pos none]
    exact .returned 0 files
  simp only [if_neg none]
  rw [get_bind_apply, get_bind_apply]
  cases files.store.file with
  | none => exact .returned 0 files
  | some bytes =>
      by_cases short : bytes.length < kShareStoreHeaderSize
      · simp only [if_pos short]
        exact .threw _ files
      simp only [if_neg short]
      simp only [Bool.false_eq_true, if_false, pure_bind]
      cases verifyHeader files.store.expectedSidechainId bytes with
      | error thrown => exact .threw thrown files
      | ok records =>
          rw [bind_of_ok (orThrow_ok records files.store),
            bind_of_ok (orThrow_ok records files)]
          cases readAllRecords backend (records.length + 1) [] records with
          | error thrown => exact .threw thrown files
          | ok shares =>
              rw [bind_of_ok (orThrow_ok shares files.store),
                bind_of_ok (orThrow_ok shares files)]
              split_ifs
              · have rewritten :=
                  @rewriteUnlocked_faultless backend
                    ((shares.filter fun item => item.1 ∉ ids).map Prod.snd) files
                rw [bind_apply, bind_apply]
                generalize rewrite backend _ files.store = first at rewritten ⊢
                generalize StoreFiles.rewriteUnlocked backend {} _ files = second
                  at rewritten ⊢
                cases rewritten with
                | returned value final => exact .returned _ final
                | threw thrown final => exact .threw thrown final
              · exact .returned _ files

end Faultless

/--
An erase removes exactly the named records of a log, two erases remove what one
of both lists removes, and anything else leaves the content as it was.  Where no call
of the file system fails, it is the erase of the log's content.
-/
theorem eraseRecords_exact
    (backend : Backend)
    (files : StoreFiles) :
    (∀ content records,
      files.store.file = some content →
      IsLog backend files.store.expectedSidechainId content records →
      ∀ ids others,
        ∃ final,
          StoreFiles.eraseRecords backend {} ids files =
              .ok (records.countP fun record => record.id ∈ ids) final ∧
            final.store = erased files.store ids records ∧
            ∃ last whole,
              StoreFiles.eraseRecords backend {} others final =
                  .ok ((kept ids records).countP fun record => record.id ∈ others)
                    last ∧
                StoreFiles.eraseRecords backend {} (ids ++ others) files =
                  .ok (records.countP (fun record => record.id ∈ ids) +
                    (kept ids records).countP fun record => record.id ∈ others)
                    whole ∧
                last.store = whole.store) ∧
      (∀ faults ids thrown final,
        StoreFiles.eraseRecords backend faults ids files = .error thrown final →
        final.store = files.store) ∧
      (∀ content,
        files.store.file = some content →
        (∀ records,
          ¬ IsLog backend files.store.expectedSidechainId content records) →
        ∀ faults ids,
          (finalState (StoreFiles.eraseRecords backend faults ids files)).store =
              files.store ∧
            (ids ≠ [] →
              ∃ thrown final,
                StoreFiles.eraseRecords backend faults ids files =
                  .error thrown final)) ∧
      ∀ ids,
        SameOutcome (eraseRecords backend ids files.store)
          (StoreFiles.eraseRecords backend {} ids files) := by
  refine ⟨?_, ?_, ?_, fun ids => eraseRecords_faultless ids files⟩
  · intro content records file isLog ids others
    obtain ⟨final, run, result⟩ := eraseRecords_ok file isLog ids
    have sameId :
        final.store.expectedSidechainId = files.store.expectedSidechainId := by
      rw [result]
      rfl
    have finalFile :
        final.store.file =
          some (headerBytes files.store.expectedSidechainId ++
            (kept ids records).flatMap StoredRecord.bytes) := by
      rw [result]
      rfl
    have finalLog :=
      isLog.erased ids
    rw [← sameId] at finalLog finalFile
    obtain ⟨last, lastRun, lastResult⟩ := eraseRecords_ok finalFile finalLog others
    obtain ⟨whole, wholeRun, wholeResult⟩ :=
      eraseRecords_ok file isLog (ids ++ others)
    rw [← countP_append] at wholeRun
    refine ⟨final, run, result, last, whole, lastRun, wholeRun, ?_⟩
    rw [lastResult, wholeResult, result, erased, erased, kept_append]
    rfl
  · intro faults ids thrown final run
    have outcome : EraseOutcome backend files ids _ :=
      eraseRecords_outcome faults ids files
    rw [run] at outcome
    cases outcome with
    | threw thrown final unchanged => exact unchanged
  · intro content file notLog faults ids
    have outcome : EraseOutcome backend files ids _ :=
      eraseRecords_outcome faults ids files
    cases run : StoreFiles.eraseRecords backend faults ids files with
    | error thrown final =>
        rw [run] at outcome
        cases outcome with
        | threw thrown final unchanged =>
            exact ⟨unchanged, fun _ => ⟨thrown, final, rfl⟩⟩
    | ok count final =>
        rw [run] at outcome
        cases outcome with
        | nothing reason =>
            rcases reason with none | absent
            · exact ⟨rfl, fun some => absurd none some⟩
            · rw [absent] at file
              cases file
        | removed isFile isLog _ =>
            rw [isFile] at file
            cases file
            exact absurd isLog (notLog _)

section Samples

def sampleRecord (share : Share) (id : ShareId) : StoredRecord where
  payload := (serializeShare easyBackend share).toOption.getD []
  id

/-- The records of the sample log. -/
def sampleRecords : List StoredRecord :=
  [sampleRecord (sampleShare 0 0 0 1) 1, sampleRecord samplePaidChild 2]

def sampleFiles : StoreFiles where
  store := sampleLog
  temporary := none

theorem sampleLog_isLog :
    IsLog easyBackend sampleFiles.store.expectedSidechainId
      (sampleLog.file.getD []) sampleRecords where
  layout := by decide +kernel
  wellFormed := by
    have first : (sampleRecord (sampleShare 0 0 0 1) 1).WellFormed easyBackend :=
      ⟨sampleShare 0 0 0 1, by decide +kernel⟩
    have second : (sampleRecord samplePaidChild 2).WellFormed easyBackend :=
      ⟨samplePaidChild, by decide +kernel⟩
    intro record member
    rcases List.mem_cons.mp member with rfl | later
    · exact first
    · rw [List.mem_singleton.mp later]
      exact second
  distinct := by decide +kernel

/-- The root is erased once, and a rename that fails leaves the log. -/
theorem eraseRecords_exact_sample :
    (∃ final last,
      StoreFiles.eraseRecords easyBackend {} [1] sampleFiles = .ok 1 final ∧
        final.store = erased sampleFiles.store [1] sampleRecords ∧
        StoreFiles.eraseRecords easyBackend {} [2, 1] final = .ok 1 last) ∧
      ∃ thrown final,
        StoreFiles.eraseRecords easyBackend { rename := true } [1] sampleFiles =
            .error thrown final ∧
          final.store = sampleFiles.store := by
  obtain ⟨erases, faulty, _⟩ := eraseRecords_exact easyBackend sampleFiles
  have file : sampleFiles.store.file = some (sampleLog.file.getD []) := by
    decide +kernel
  obtain ⟨final, ran, result, last, _, again, _⟩ :=
    erases _ _ file sampleLog_isLog [1] [2, 1]
  have one : (sampleRecords.countP fun record => record.id ∈ [1]) = 1 := by
    decide +kernel
  have other :
      ((kept [1] sampleRecords).countP fun record => record.id ∈ [2, 1]) = 1 := by
    decide +kernel
  rw [one] at ran
  rw [other] at again
  refine ⟨⟨final, last, ran, result, again⟩, ?_⟩
  have fails :
      returned (StoreFiles.eraseRecords easyBackend { rename := true } [1]
        sampleFiles) = none := by
    decide +kernel
  cases ended : StoreFiles.eraseRecords easyBackend { rename := true } [1]
      sampleFiles with
  | ok count after =>
      rw [ended] at fails
      cases fails
  | error thrown after =>
      exact ⟨thrown, after, rfl, faulty _ _ thrown after ended⟩

end Samples

end ShareStore

end ZanoP2pool
