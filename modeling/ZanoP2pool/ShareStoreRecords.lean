import ZanoP2pool.ShareStoreLog

namespace ZanoP2pool

open Foundation

/-!
# The records of a share store

The identities a log names are read off its bytes.  On a log that appends have
written, appending adds one identity at the end, and erasing removes the named
identities and keeps the order of the others.
-/

namespace ShareStore

variable {backend : Backend}

/-- The identities named by the complete records at the front of a log. -/
def recordIdsFrom : Nat → List UInt8 → List ShareId
  | 0, _ => []
  | budget + 1, bytes =>
      match nextRecord bytes with
      | .ok (.complete _ storedId rest) =>
          storedId :: recordIdsFrom budget rest
      | _ => []

/-- The identities named by the file of a store, in order. -/
def recordIds (store : ShareStore) : List ShareId :=
  match store.file with
  | none => []
  | some bytes =>
      recordIdsFrom (bytes.length + 1) (bytes.drop kShareStoreHeaderSize)

/-- The file of a store consists of the records of some identified shares. -/
structure Lists
    (backend : Backend)
    (store : ShareStore)
    (records : List (ShareId × Share)) :
    Prop where
  holds : HoldsOrAbsent backend store (records.map Prod.snd)
  keyed :
    ∀ record ∈ records, shareId backend record.2 = .ok record.1

/-- A store without a file lists nothing. -/
theorem lists_absent
    {store : ShareStore}
    (absent : store.file = none) :
    Lists backend store [] :=
  ⟨.inl ⟨absent, rfl⟩, by simp⟩

/-- Identities are read back from the records that carry them. -/
theorem recordIdsFrom_eq
    {records : List (ShareId × Share)}
    {bytes : List UInt8}
    (keyed :
      ∀ record ∈ records, shareId backend record.2 = .ok record.1)
    (encodes : Encodes backend (records.map Prod.snd) bytes)
    {budget : Nat}
    (enough : bytes.length < budget) :
    recordIdsFrom budget bytes = records.map Prod.fst := by
  induction records generalizing bytes budget with
  | nil =>
      cases encodes
      cases budget with
      | zero => rfl
      | succ budget => rfl
  | cons record rest inductionHypothesis =>
      cases encodes with
      | @cons _ id _ payload later serialized shareKeyed laterEncodes =>
          obtain rfl : id = record.1 := by
            have same := shareKeyed.symm.trans (keyed record (by simp))
            exact Except.ok.inj same
          cases budget with
          | zero => omega
          | succ budget =>
              have shorter : later.length < budget := by
                simp only [List.length_append, recordBytes, length_bigEndian]
                  at enough
                omega
              rw [recordIdsFrom, nextRecord_recordBytes serialized,
                List.map_cons]
              simp only
              rw [inductionHypothesis
                (fun other member => keyed other (by simp [member]))
                laterEncodes shorter]

/-- The header is exactly as long as a reader skips. -/
theorem drop_headerBytes
    (sidechainId : SidechainId)
    (bytes : List UInt8) :
    (headerBytes sidechainId ++ bytes).drop kShareStoreHeaderSize =
      bytes := by
  apply List.drop_left'
  simp [headerBytes, hashBytes, kShareStoreMagic, kShareStoreHeaderSize]

/-- The identities of a listed store are those of its records. -/
theorem Lists.recordIds_eq
    {store : ShareStore}
    {records : List (ShareId × Share)}
    (lists : Lists backend store records) :
    store.recordIds = records.map Prod.fst := by
  rcases lists.holds with ⟨absent, none⟩ | ⟨bytes, file, encodes⟩
  · rw [List.map_eq_nil_iff] at none
    simp [recordIds, absent, none]
  · rw [recordIds, file]
    simp only [drop_headerBytes]
    apply recordIdsFrom_eq lists.keyed encodes
    simp only [List.length_append]
    omega

/-- Appending a share adds its identity at the end. -/
theorem Lists.append
    {store : ShareStore}
    {records : List (ShareId × Share)}
    (lists : Lists backend store records)
    {share : Share}
    {id : ShareId}
    (keyed : shareId backend share = .ok id) :
    ∃ next,
      append backend share store = .ok () next ∧
      Lists backend next (records ++ [(id, share)]) := by
  obtain ⟨next, appended, _, holds⟩ := append_holds lists.holds keyed
  refine ⟨next, appended, .inr (by simpa using holds), ?_⟩
  intro record member
  rcases List.mem_append.mp member with earlier | last
  · exact lists.keyed record earlier
  · rw [List.mem_singleton] at last
    subst last
    exact keyed

/-- A complete log of distinct records is read without complaint. -/
theorem readAllRecords_eq
    {records : List (ShareId × Share)}
    {bytes : List UInt8}
    (keyed :
      ∀ record ∈ records, shareId backend record.2 = .ok record.1)
    (encodes : Encodes backend (records.map Prod.snd) bytes)
    (distinct : (records.map Prod.fst).Nodup)
    (seen : List ShareId)
    (unseen : ∀ record ∈ records, record.1 ∉ seen)
    {budget : Nat}
    (enough : bytes.length < budget) :
    readAllRecords backend budget seen bytes = .ok records := by
  induction records generalizing bytes budget seen with
  | nil =>
      cases encodes
      cases budget with
      | zero => rfl
      | succ budget => rfl
  | cons record rest inductionHypothesis =>
      cases encodes with
      | @cons _ id _ payload later serialized shareKeyed laterEncodes =>
          obtain rfl : id = record.1 := by
            have same := shareKeyed.symm.trans (keyed record (by simp))
            exact Except.ok.inj same
          obtain ⟨first, laterDistinct⟩ := List.nodup_cons.mp distinct
          have laterUnseen :
              ∀ other ∈ rest, other.1 ∉ record.1 :: seen := by
            intro other member
            rw [List.mem_cons, not_or]
            refine ⟨?_, unseen other (by simp [member])⟩
            intro same
            exact first (same ▸ List.mem_map_of_mem member)
          cases budget with
          | zero => omega
          | succ budget =>
              have shorter : later.length < budget := by
                simp only [List.length_append, recordBytes, length_bigEndian]
                  at enough
                omega
              have laterRead :=
                inductionHypothesis
                  (fun other member => keyed other (by simp [member]))
                  laterEncodes laterDistinct (record.1 :: seen) laterUnseen
                  shorter
              rw [readAllRecords, nextRecord_recordBytes serialized]
              simp only [bind, Except.bind,
                decodeRecord_eq serialized shareKeyed,
                if_neg (unseen record (by simp)), laterRead]
              rfl

/-- Erasing from a log of distinct records succeeds and keeps the others. -/
theorem Lists.eraseRecords
    {store : ShareStore}
    {records : List (ShareId × Share)}
    (lists : Lists backend store records)
    (distinct : (records.map Prod.fst).Nodup)
    (ids : List ShareId) :
    ∃ removed next,
      eraseRecords backend ids store = .ok removed next ∧
      Lists backend next (records.filter fun record => record.1 ∉ ids) := by
  unfold ShareStore.eraseRecords
  by_cases empty : ids.isEmpty = true
  · rw [if_pos empty]
    rw [List.isEmpty_iff] at empty
    subst empty
    exact ⟨0, store, rfl, by simpa using lists⟩
  rw [if_neg empty, get_bind_apply]
  rcases lists.holds with ⟨absent, none⟩ | ⟨bytes, file, encodes⟩
  · rw [List.map_eq_nil_iff] at none
    subst none
    rw [absent]
    exact ⟨0, store, rfl, lists_absent absent⟩
  rw [file]
  simp only [if_neg (headerBytes_large store.expectedSidechainId bytes)]
  have read :=
    readAllRecords_eq lists.keyed encodes distinct [] (by simp)
      (Nat.lt_succ_self bytes.length)
  rw [bind_of_ok (orThrow_eq_ok.mpr
      ⟨verifyHeader_headerBytes store.expectedSidechainId bytes, rfl⟩),
    bind_of_ok (orThrow_eq_ok.mpr ⟨read, rfl⟩)]
  have keptKeyed :
      ∀ record ∈ records.filter fun record => record.1 ∉ ids,
        shareId backend record.2 = .ok record.1 :=
    fun record member => lists.keyed record (List.mem_of_mem_filter member)
  by_cases touched :
      (records.filter fun item => item.1 ∈ ids).length ≠ 0
  · have paired :
        List.Forall₂ (fun share id => shareId backend share = .ok id)
          ((records.filter fun record => record.1 ∉ ids).map Prod.snd)
          ((records.filter fun record => record.1 ∉ ids).map Prod.fst) := by
      rw [List.forall₂_map_left_iff, List.forall₂_map_right_iff,
        List.forall₂_same]
      exact keptKeyed
    have usable : Usable store := by
      intro other found
      rw [file] at found
      cases found
      exact ⟨bytes, rfl⟩
    obtain ⟨rewritten, keptEncodes, rewrote⟩ :=
      rewrite_encodes usable paired
        (List.Nodup.sublist (List.filter_sublist.map Prod.fst) distinct)
    rw [if_pos touched, bind_of_ok rewrote]
    exact ⟨_, _, rfl, .inr ⟨rewritten, rfl, keptEncodes⟩, keptKeyed⟩
  · rw [if_neg touched]
    have untouched :
        (records.filter fun record => record.1 ∉ ids) = records := by
      rw [not_not, List.length_eq_zero_iff, List.filter_eq_nil_iff]
        at touched
      apply List.filter_eq_self.mpr
      intro record member
      simpa using touched record member
    rw [untouched]
    exact ⟨_, store, rfl, lists⟩

end ShareStore

end ZanoP2pool
