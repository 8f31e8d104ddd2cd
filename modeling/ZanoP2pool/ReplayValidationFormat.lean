import ZanoP2pool.Foundation.Effect
import ZanoP2pool.ReplayValidationStore
import ZanoP2pool.ShareBytes

namespace ZanoP2pool

open Foundation

/-!
# The replay-validation file format

The parser accepts exactly what the serializer writes, with the records in the
order of their share ids.  So a file determines one snapshot, and a snapshot one
file.
-/

namespace ReplayValidationStore

section Records

variable {record : ReplayValidationRecord} {bytes rest : List UInt8}

theorem classificationFromByte_eq_ok
    {value : UInt8}
    {classification : CandidateClassification} :
    classificationFromByte value = .ok classification ↔
      classificationByte classification = .ok value := by
  unfold classificationFromByte
  by_cases first : value = 1
  · subst first
    cases classification <;> decide
  · by_cases second : value = 2
    · subst second
      cases classification <;> decide
    · rw [if_neg first, if_neg second]
      cases classification with
      | invalid =>
          simp [classificationByte, throw, throwThe, MonadExceptOf.throw]
      | share =>
          simp [classificationByte, throw, throwThe, MonadExceptOf.throw,
            pure, Except.pure, Ne.symm first]
      | block =>
          simp [classificationByte, throw, throwThe, MonadExceptOf.throw,
            pure, Except.pure, Ne.symm second]

theorem boolFromByte_eq_ok
    {value : UInt8}
    {context : String}
    {flag : Bool} :
    boolFromByte value context = .ok flag ↔ value = boolByte flag := by
  unfold boolFromByte
  by_cases large : value > 1
  · rw [if_pos large]
    constructor
    · rintro ⟨⟩
    · rintro rfl
      cases flag <;> simp [boolByte] at large
  · rw [if_neg large]
    have small : value.toNat ≤ 1 := by
      have bound := UInt8.le_iff_toNat_le.mp (UInt8.not_lt.mp large)
      simpa using bound
    have choices : value = 0 ∨ value = 1 := by
      rcases Nat.le_one_iff_eq_zero_or_eq_one.mp small with zero | one
      · exact .inl (UInt8.toNat_inj.mp zero)
      · exact .inr (UInt8.toNat_inj.mp one)
    rcases choices with rfl | rfl <;> cases flag <;> decide

/-- A record of the file is valid and stands before the digest. -/
theorem readRecord_eq_ok :
    readRecord bytes = .ok (record, rest) ↔
      validateRecord record = .ok () ∧ 32 ≤ rest.length ∧
        ∃ encoded, recordBytes record = .ok encoded ∧
          bytes = encoded ++ rest := by
  have digest : kDigestSize.toNat = 32 := by decide
  constructor
  · intro read
    unfold readRecord at read
    obtain ⟨shareId, bytes1, taken1, read1⟩ := cursor_bind_eq_ok.mp read
    obtain ⟨finalHash, bytes2, taken2, read2⟩ := cursor_bind_eq_ok.mp read1
    obtain ⟨mixHash, bytes3, taken3, read3⟩ := cursor_bind_eq_ok.mp read2
    rw [cursor_get_bind] at read3
    obtain ⟨long, read4⟩ := cursor_guard_eq_ok.mp read3
    simp only [cursor_bind_eq_ok, takeByte_eq_ok, cursor_lift_eq_ok,
      boolFromByte_eq_ok, classificationFromByte_eq_ok,
      cursor_pure_eq_ok] at read4
    obtain ⟨_, bytes4, rfl, meetsShare, bytes5, ⟨rfl, rfl⟩, _, bytes6, rfl,
      meetsNetwork, bytes7, ⟨rfl, rfl⟩, classByte, bytes8, rfl,
      classification, bytes9, ⟨classified, rfl⟩, nothing, bytes10, ⟨valid, rfl⟩,
      rfl, rfl⟩ := read4
    obtain rfl := takeBitVec256_eq_ok.mp taken1
    obtain rfl := takeBitVec256_eq_ok.mp taken2
    obtain rfl := takeBitVec256_eq_ok.mp taken3
    refine ⟨valid, ?_, ?_⟩
    · rw [digest] at long
      simp only [List.length_cons] at long
      omega
    · refine ⟨_, except_bind_eq_ok.mpr ⟨classByte, classified, rfl⟩, ?_⟩
      simp [hashBytes]
  · rintro ⟨valid, long, encoded, written, rfl⟩
    obtain ⟨classByte, classified, returned⟩ := except_bind_eq_ok.mp written
    cases returned
    have shape :
        hashBytes record.shareId ++
            hashBytes record.validation.pow.finalHash ++
            hashBytes record.validation.pow.mixHash ++
            [boolByte record.validation.meetsShareDifficulty,
              boolByte record.validation.meetsNetworkDifficulty,
              classByte] ++ rest =
          bigEndian 32 record.shareId.toNat ++
            (bigEndian 32 record.validation.pow.finalHash.toNat ++
            (bigEndian 32 record.validation.pow.mixHash.toNat ++
            (boolByte record.validation.meetsShareDifficulty ::
              boolByte record.validation.meetsNetworkDifficulty ::
              classByte :: rest))) := by
      simp [hashBytes]
    unfold readRecord
    rw [shape, cursor_bind_of_ok (takeBitVec256_eq_ok.mpr rfl),
      cursor_bind_of_ok (takeBitVec256_eq_ok.mpr rfl),
      cursor_bind_of_ok (takeBitVec256_eq_ok.mpr rfl), cursor_get_bind,
      if_neg (by rw [digest]; simp only [List.length_cons]; omega),
      cursor_bind_of_ok (takeByte_eq_ok.mpr rfl),
      cursor_bind_of_ok (cursor_lift_eq_ok.mpr
        ⟨boolFromByte_eq_ok.mpr rfl, rfl⟩),
      cursor_bind_of_ok (takeByte_eq_ok.mpr rfl),
      cursor_bind_of_ok (cursor_lift_eq_ok.mpr
        ⟨boolFromByte_eq_ok.mpr rfl, rfl⟩),
      cursor_bind_of_ok (takeByte_eq_ok.mpr rfl),
      cursor_bind_of_ok (cursor_lift_eq_ok.mpr
        ⟨classificationFromByte_eq_ok.mpr classified, rfl⟩),
      cursor_bind_of_ok (cursor_lift_eq_ok.mpr ⟨valid, rfl⟩)]
    rfl

theorem length_recordBytes
    {encoded : List UInt8}
    (written : recordBytes record = .ok encoded) :
    encoded.length = 99 := by
  obtain ⟨classByte, _, returned⟩ := except_bind_eq_ok.mp written
  cases returned
  simp [hashBytes]

/-- A valid record has a class that can be written. -/
theorem exists_recordBytes
    (valid : validateRecord record = .ok ()) :
    ∃ encoded, recordBytes record = .ok encoded := by
  have classified :
      ∃ classByte,
        classificationByte record.validation.classification =
          .ok classByte := by
    unfold validateRecord at valid
    obtain ⟨_, valid⟩ := except_guard_eq_ok.mp valid
    obtain ⟨_, valid⟩ := except_guard_eq_ok.mp valid
    cases classified : record.validation.classification with
    | invalid =>
        rw [classified] at valid
        cases valid
    | share => exact ⟨1, rfl⟩
    | block => exact ⟨2, rfl⟩
  obtain ⟨classByte, classified⟩ := classified
  exact ⟨_, except_bind_eq_ok.mpr ⟨classByte, classified, rfl⟩⟩

end Records

section Order

variable {records : List ReplayValidationRecord} {previous : Option ShareId}

/-- Share ids that increase, above a previous one if there is one. -/
def Increasing
    (previous : Option ShareId)
    (records : List ReplayValidationRecord) :
    Prop :=
  (previous.toList ++ records.map ReplayValidationRecord.shareId).Pairwise
    (· < ·)

theorem increasing_cons
    {record : ReplayValidationRecord} :
    Increasing previous (record :: records) ↔
      (∀ last ∈ previous, last < record.shareId) ∧
        Increasing (some record.shareId) records := by
  cases previous with
  | none => simp [Increasing]
  | some last =>
      simp only [Increasing, Option.toList_some, List.singleton_append,
        List.map_cons, List.pairwise_cons, List.mem_cons, forall_eq_or_imp,
        Option.mem_def, Option.some.injEq, forall_eq']
      constructor
      · rintro ⟨⟨below, _⟩, increasing⟩
        exact ⟨below, increasing⟩
      · rintro ⟨below, above, increasing⟩
        exact ⟨⟨below, fun id member => below.trans (above id member)⟩,
          above, increasing⟩

/-- On sorted records the neighbour check excludes every repetition. -/
theorem checkSortedRecords_eq_ok
    (sorted :
      (previous.toList ++
        records.map ReplayValidationRecord.shareId).Pairwise (· ≤ ·)) :
    checkSortedRecords previous records = .ok () ↔
      (∀ record ∈ records, validateRecord record = .ok ()) ∧
        Increasing previous records := by
  induction records generalizing previous with
  | nil =>
      cases previous <;> simp [checkSortedRecords, Increasing, pure,
        Except.pure]
  | cons record rest inductionHypothesis =>
      have later :
          ((some record.shareId).toList ++
            rest.map ReplayValidationRecord.shareId).Pairwise (· ≤ ·) := by
        rw [List.map_cons] at sorted
        exact (List.pairwise_append.mp sorted).2.1
      have below : ∀ last ∈ previous, last ≤ record.shareId := by
        intro last known
        exact (List.pairwise_append.mp sorted).2.2 last (by simpa using known)
          record.shareId (by simp)
      rw [checkSortedRecords, except_seq_eq_ok, increasing_cons,
        List.forall_mem_cons]
      simp only [throw, throwThe, MonadExceptOf.throw]
      rw [except_guard_eq_ok, inductionHypothesis later]
      constructor
      · rintro ⟨valid, different, each, increasing⟩
        refine ⟨⟨valid, each⟩, fun last known => ?_, increasing⟩
        exact lt_of_le_of_ne (below last known)
          (fun same => different (by rw [← same]; exact known))
      · rintro ⟨⟨valid, each⟩, strict, increasing⟩
        exact ⟨valid, fun same => absurd (strict _ same) (lt_irrefl _), each,
          increasing⟩

instance : Std.Total recordLe where
  total := fun left right => le_total left.shareId right.shareId

instance : IsTrans ReplayValidationRecord recordLe where
  trans := fun _ _ _ first second => le_trans first second

theorem sorted_insertionSort
    (records : List ReplayValidationRecord) :
    ((none : Option ShareId).toList ++
      (records.insertionSort recordLe).map
        ReplayValidationRecord.shareId).Pairwise (· ≤ ·) := by
  rw [Option.toList_none, List.nil_append, List.pairwise_map]
  exact List.pairwise_insertionSort recordLe records

/-- Increasing records are their own sort. -/
theorem insertionSort_of_increasing
    (increasing : Increasing none records) :
    records.insertionSort recordLe = records := by
  apply List.Pairwise.insertionSort_eq
  rw [Increasing, Option.toList_none, List.nil_append,
    List.pairwise_map] at increasing
  exact increasing.imp le_of_lt

/-- Increasing records are determined by which records they are. -/
theorem increasing_perm_eq
    {others : List ReplayValidationRecord}
    (increasing : Increasing none records)
    (otherIncreasing : Increasing none others)
    (permuted : records.Perm others) :
    records = others := by
  rw [Increasing, Option.toList_none, List.nil_append,
    List.pairwise_map] at increasing otherIncreasing
  refine List.Perm.eq_of_pairwise ?_ increasing otherIncreasing permuted
  intro left right _ _ below above
  exact absurd (below.trans above) (lt_irrefl _)

end Order

section Region

variable {records : List ReplayValidationRecord} {bytes rest : List UInt8}

/-- The bytes of the records, one after the other. -/
def RecordRegion
    (records : List ReplayValidationRecord)
    (bytes : List UInt8) :
    Prop :=
  ∃ encoded, records.mapM recordBytes = .ok encoded ∧ bytes = encoded.flatten

theorem recordRegion_nil :
    RecordRegion [] bytes ↔ bytes = [] := by
  constructor
  · rintro ⟨encoded, ⟨⟩, rfl⟩
    rfl
  · rintro rfl
    exact ⟨[], rfl, rfl⟩

theorem recordRegion_cons
    {record : ReplayValidationRecord} :
    RecordRegion (record :: records) bytes ↔
      ∃ encoded later, recordBytes record = .ok encoded ∧
        RecordRegion records later ∧ bytes = encoded ++ later := by
  unfold RecordRegion
  rw [List.mapM_cons]
  simp only [except_bind_eq_ok, pure, Except.pure, Except.ok.injEq]
  constructor
  · rintro ⟨_, ⟨encoded, written, later, writtenLater, rfl⟩, rfl⟩
    exact ⟨encoded, later.flatten, written, ⟨later, writtenLater, rfl⟩,
      by simp⟩
  · rintro ⟨encoded, _, written, ⟨later, writtenLater, rfl⟩, rfl⟩
    exact ⟨encoded :: later, ⟨encoded, written, later, writtenLater, rfl⟩,
      by simp⟩

theorem length_recordRegion
    (region : RecordRegion records bytes) :
    bytes.length = 99 * records.length := by
  induction records generalizing bytes with
  | nil => simp [recordRegion_nil.mp region]
  | cons record rest inductionHypothesis =>
      obtain ⟨encoded, later, written, regionLater, rfl⟩ :=
        recordRegion_cons.mp region
      rw [List.length_append, length_recordBytes written,
        inductionHypothesis regionLater, List.length_cons]
      omega

theorem exists_recordRegion
    (valid : ∀ record ∈ records, validateRecord record = .ok ()) :
    ∃ bytes, RecordRegion records bytes := by
  induction records with
  | nil => exact ⟨[], recordRegion_nil.mpr rfl⟩
  | cons record rest inductionHypothesis =>
      obtain ⟨validHere, validLater⟩ := List.forall_mem_cons.mp valid
      obtain ⟨encoded, written⟩ := exists_recordBytes validHere
      obtain ⟨later, region⟩ := inductionHypothesis validLater
      exact ⟨encoded ++ later, recordRegion_cons.mpr
        ⟨encoded, later, written, region, rfl⟩⟩

/-- Reading records before a digest accepts exactly valid increasing ones. -/
theorem readRecords_eq_ok
    {count : Nat}
    {previous : Option ShareId}
    (digest : 32 ≤ rest.length) :
    readRecords count previous bytes = .ok (records, rest) ↔
      records.length = count ∧
      (∀ record ∈ records, validateRecord record = .ok ()) ∧
      (records ≠ [] → Increasing previous records) ∧
      ∃ region, RecordRegion records region ∧ bytes = region ++ rest := by
  induction count generalizing bytes records previous with
  | zero =>
      rw [readRecords, cursor_pure_eq_ok, List.length_eq_zero_iff]
      constructor
      · rintro ⟨rfl, rfl⟩
        exact ⟨rfl, by simp, by simp, [], recordRegion_nil.mpr rfl, rfl⟩
      · rintro ⟨rfl, _, _, region, empty, rfl⟩
        exact ⟨rfl, by rw [recordRegion_nil.mp empty]; rfl⟩
  | succ count inductionHypothesis =>
      rw [readRecords, cursor_bind_eq_ok]
      constructor
      · rintro ⟨record, middle, readHere, read⟩
        obtain ⟨ordered, read⟩ := cursor_guard_eq_ok.mp read
        obtain ⟨later, last, readLater, returned⟩ := cursor_bind_eq_ok.mp read
        obtain ⟨rfl, rfl⟩ := cursor_pure_eq_ok.mp returned
        obtain ⟨valid, _, encoded, written, rfl⟩ :=
          readRecord_eq_ok.mp readHere
        obtain ⟨counted, validLater, increasing, region, regionLater, rfl⟩ :=
          inductionHypothesis.mp readLater
        have strict : ∀ last ∈ previous, last < record.shareId := by
          intro last known
          rw [Option.mem_def.mp known] at ordered
          simpa using ordered
        refine ⟨by simp [counted], by simpa using ⟨valid, validLater⟩, ?_,
          encoded ++ region, recordRegion_cons.mpr
            ⟨encoded, region, written, regionLater, rfl⟩, by simp⟩
        intro _
        rw [increasing_cons]
        refine ⟨strict, ?_⟩
        by_cases nothing : later = []
        · subst nothing
          simp [Increasing]
        · exact increasing nothing
      · rintro ⟨counted, valid, increasing, region, encodedRegion, rfl⟩
        cases records with
        | nil => simp at counted
        | cons record later =>
            obtain ⟨validHere, validLater⟩ := List.forall_mem_cons.mp valid
            obtain ⟨strict, increasingLater⟩ :=
              increasing_cons.mp (increasing (by simp))
            obtain ⟨encoded, regionLater, written, encodedLater, rfl⟩ :=
              recordRegion_cons.mp encodedRegion
            refine ⟨record, regionLater ++ rest, readRecord_eq_ok.mpr
              ⟨validHere, ?_, encoded, written, by simp⟩, ?_⟩
            · rw [List.length_append]
              omega
            · refine cursor_guard_eq_ok.mpr ⟨?_, cursor_bind_eq_ok.mpr
                ⟨later, rest, inductionHypothesis.mpr
                  ⟨by simpa using counted, validLater,
                    fun _ => increasingLater, regionLater, encodedLater, rfl⟩,
                  cursor_pure_eq_ok.mpr ⟨rfl, rfl⟩⟩⟩
              cases previous with
              | none => simp
              | some last => simpa using strict last rfl

end Region

section Snapshots

variable {backend : Backend} {sidechainId : SidechainId}
  {snapshot : ReplayValidationSnapshot} {bytes rest : List UInt8}

/-- Bytes followed by their digest. -/
def sealedBytes (backend : Backend) (bytes : List UInt8) : List UInt8 :=
  bytes ++ hashBytes (backend.cnFastHash bytes)

/-- The file of a snapshot whose records are in order. -/
structure FileOf
    (backend : Backend)
    (sidechainId : SidechainId)
    (snapshot : ReplayValidationSnapshot)
    (bytes : List UInt8) :
    Prop where
  checkpoint : snapshot.checkpoint.blockHash ≠ 0
  count : snapshot.records.length ≤ kMaxRecords.toNat
  valid : ∀ record ∈ snapshot.records, validateRecord record = .ok ()
  increasing : Increasing none snapshot.records
  bytes :
    ∃ region,
      RecordRegion snapshot.records region ∧
      bytes = sealedBytes backend
        (prefixBytes sidechainId snapshot.checkpoint
          (UInt64.ofNat snapshot.records.length) ++ region)

/-- The snapshot with its records sorted by share id. -/
def sortedSnapshot
    (snapshot : ReplayValidationSnapshot) :
    ReplayValidationSnapshot :=
  { snapshot with records := snapshot.records.insertionSort recordLe }

/-- The serializer writes the file of the sorted snapshot. -/
theorem serializeSnapshot_eq_ok :
    serializeSnapshot backend sidechainId snapshot = .ok bytes ↔
      FileOf backend sidechainId (sortedSnapshot snapshot) bytes := by
  have room : kMaxRecords.toNat ≤ maxSizedRecords.toNat := by decide
  have sameLength :=
    List.length_insertionSort recordLe snapshot.records
  have sorted := sorted_insertionSort snapshot.records
  unfold serializeSnapshot
  simp only [throw, throwThe, MonadExceptOf.throw]
  constructor
  · intro serialized
    obtain ⟨checkpoint, serialized⟩ := except_guard_eq_ok.mp serialized
    obtain ⟨count, serialized⟩ := except_guard_eq_ok.mp serialized
    obtain ⟨checked, serialized⟩ := except_seq_eq_ok.mp serialized
    obtain ⟨_, serialized⟩ := except_guard_eq_ok.mp serialized
    obtain ⟨encoded, written, ⟨⟩⟩ := except_bind_eq_ok.mp serialized
    obtain ⟨valid, increasing⟩ := (checkSortedRecords_eq_ok sorted).mp checked
    refine ⟨checkpoint, ?_, valid, increasing, encoded.flatten,
      ⟨encoded, written, rfl⟩, rfl⟩
    dsimp only [sortedSnapshot]
    omega
  · rintro ⟨checkpoint, count, valid, increasing, region,
      ⟨encoded, written, rfl⟩, rfl⟩
    dsimp only [sortedSnapshot] at checkpoint count valid increasing written
    refine except_guard_eq_ok.mpr ⟨checkpoint, ?_⟩
    refine except_guard_eq_ok.mpr ⟨by omega, ?_⟩
    refine except_seq_eq_ok.mpr
      ⟨(checkSortedRecords_eq_ok sorted).mpr ⟨valid, increasing⟩, ?_⟩
    refine except_guard_eq_ok.mpr ⟨by omega, ?_⟩
    exact except_bind_eq_ok.mpr ⟨encoded, written, rfl⟩

theorem length_prefixBytes
    (checkpoint : ReplayValidationCheckpoint)
    (recordCount : UInt64) :
    (prefixBytes sidechainId checkpoint recordCount).length = 88 := by
  simp [prefixBytes, kMagic, hashBytes, appendU64Be]

/-- No admissible record count makes the size computation wrap. -/
theorem toNat_expectedSize
    {recordCount : UInt64}
    (admissible : recordCount.toNat ≤ kMaxRecords.toNat) :
    (expectedSize recordCount).toNat = 120 + 99 * recordCount.toNat := by
  have limit : kMaxRecords.toNat = 1000000 := by decide
  have constants :
      kPrefixSize.toNat = 88 ∧ kRecordSize.toNat = 99 ∧
        kDigestSize.toNat = 32 := by decide
  unfold expectedSize
  rw [UInt64.toNat_add, UInt64.toNat_add, UInt64.toNat_mul, constants.1,
    constants.2.1, constants.2.2]
  omega

/-- A count of records that the format admits. -/
theorem toNat_recordCount
    (count : snapshot.records.length ≤ kMaxRecords.toNat) :
    (UInt64.ofNat snapshot.records.length).toNat =
      snapshot.records.length := by
  apply UInt64.toNat_ofNat_of_lt'
  have limit : kMaxRecords.toNat < UInt64.size := by decide
  omega

/-- Reading leaves exactly the digest behind the records. -/
theorem readSnapshot_eq_ok :
    readSnapshot sidechainId bytes.length bytes = .ok (snapshot, rest) ↔
      snapshot.checkpoint.blockHash ≠ 0 ∧
      snapshot.records.length ≤ kMaxRecords.toNat ∧
      (∀ record ∈ snapshot.records, validateRecord record = .ok ()) ∧
      Increasing none snapshot.records ∧
      rest.length = 32 ∧
      ∃ region,
        RecordRegion snapshot.records region ∧
        bytes = prefixBytes sidechainId snapshot.checkpoint
          (UInt64.ofNat snapshot.records.length) ++ region ++ rest := by
  have digest : kDigestSize.toNat = 32 := by decide
  have largest : (UInt64.ofNat (2 ^ 64 - 1)).toNat = 2 ^ 64 - 1 := by decide
  have room : kMaxRecords.toNat ≤ maxSizedRecords.toNat := by decide
  constructor
  · intro read
    unfold readSnapshot at read
    obtain ⟨magic, bytes1, taken1, read1⟩ := cursor_bind_eq_ok.mp read
    obtain ⟨marked, read2⟩ := cursor_guard_eq_ok.mp read1
    obtain ⟨foundId, bytes2, taken2, read3⟩ := cursor_bind_eq_ok.mp read2
    obtain ⟨expected, read4⟩ := cursor_guard_eq_ok.mp read3
    obtain ⟨zanoHeight, bytes3, taken3, read5⟩ := cursor_bind_eq_ok.mp read4
    obtain ⟨blockHash, bytes4, taken4, read6⟩ := cursor_bind_eq_ok.mp read5
    obtain ⟨nonzero, read7⟩ := cursor_guard_eq_ok.mp read6
    obtain ⟨recordCount, bytes5, taken5, read8⟩ := cursor_bind_eq_ok.mp read7
    obtain ⟨admissible, read9⟩ := cursor_guard_eq_ok.mp read8
    obtain ⟨_, read10⟩ := cursor_guard_eq_ok.mp read9
    obtain ⟨_, read11⟩ := cursor_guard_eq_ok.mp read10
    obtain ⟨records, bytes6, taken6, read12⟩ := cursor_bind_eq_ok.mp read11
    rw [cursor_get_bind] at read12
    obtain ⟨consumed, read13⟩ := cursor_guard_eq_ok.mp read12
    obtain ⟨rfl, rfl⟩ := cursor_pure_eq_ok.mp read13
    have ended : bytes6.length = 32 := by
      rw [← digest]
      exact not_not.mp consumed
    obtain ⟨counted, valid, increasing, region, encoded, rfl⟩ :=
      (readRecords_eq_ok (by omega)).mp taken6
    obtain ⟨_, rfl⟩ := takeBytes_eq_ok.mp taken1
    obtain rfl := takeBitVec256_eq_ok.mp taken2
    obtain rfl := takeUInt64_eq_ok.mp taken3
    obtain rfl := takeBitVec256_eq_ok.mp taken4
    obtain rfl := takeUInt64_eq_ok.mp taken5
    obtain rfl := not_not.mp marked
    obtain rfl := not_not.mp expected
    rw [not_or, gt_iff_lt, UInt64.not_lt, UInt64.le_iff_toNat_le]
      at admissible
    have sorted : Increasing none records := by
      by_cases nothing : records = []
      · rw [nothing]
        exact .nil
      · exact increasing nothing
    refine ⟨nonzero, by dsimp only; omega, valid, sorted, ended, region,
      encoded, ?_⟩
    dsimp only
    rw [counted, UInt64.ofNat_toNat]
    simp [prefixBytes, hashBytes, appendU64Be]
  · rintro ⟨nonzero, count, valid, increasing, ended, region, encoded, rfl⟩
    have counted := toNat_recordCount count
    have regionLength := length_recordRegion encoded
    have size := @toNat_expectedSize
      (UInt64.ofNat snapshot.records.length) (by omega)
    have total :
        (prefixBytes sidechainId snapshot.checkpoint
          (UInt64.ofNat snapshot.records.length) ++ region ++ rest).length =
            120 + 99 * snapshot.records.length := by
      rw [List.length_append, List.length_append, length_prefixBytes,
        regionLength, ended]
      omega
    have shape :
        prefixBytes sidechainId snapshot.checkpoint
            (UInt64.ofNat snapshot.records.length) ++ region ++ rest =
          kMagic ++ (bigEndian 32 sidechainId.toNat ++
            (bigEndian 8 snapshot.checkpoint.zanoHeight.toNat ++
            (bigEndian 32 snapshot.checkpoint.blockHash.toNat ++
            (bigEndian 8 (UInt64.ofNat snapshot.records.length).toNat ++
              (region ++ rest))))) := by
      simp [prefixBytes, hashBytes, appendU64Be]
    have bounded :
        ¬ (UInt64.ofNat snapshot.records.length > kMaxRecords ∨
          UInt64.ofNat snapshot.records.length >
            UInt64.ofNat (2 ^ 64 - 1)) := by
      rw [not_or, gt_iff_lt, gt_iff_lt, UInt64.lt_iff_toNat_lt,
        UInt64.lt_iff_toNat_lt, largest]
      have fits := (UInt64.ofNat snapshot.records.length).toNat_lt
      omega
    have sized :
        ¬ UInt64.ofNat snapshot.records.length > maxSizedRecords := by
      rw [gt_iff_lt, UInt64.lt_iff_toNat_lt]
      omega
    have readAll :
        readRecords (UInt64.ofNat snapshot.records.length).toNat none
            (region ++ rest) = .ok (snapshot.records, rest) :=
      (readRecords_eq_ok (by omega)).mpr
        ⟨counted.symm, valid, fun _ => increasing, region, encoded, rfl⟩
    unfold readSnapshot
    rw [total, shape, cursor_bind_of_ok (takeBytes_append (by decide) _ _),
      if_neg (not_not_intro rfl),
      cursor_bind_of_ok (takeBitVec256_eq_ok.mpr rfl),
      if_neg (not_not_intro rfl),
      cursor_bind_of_ok (takeUInt64_eq_ok.mpr rfl),
      cursor_bind_of_ok (takeBitVec256_eq_ok.mpr rfl), if_neg nonzero,
      cursor_bind_of_ok (takeUInt64_eq_ok.mpr rfl), if_neg bounded,
      if_neg sized, if_neg (by omega), cursor_bind_of_ok readAll,
      cursor_get_bind, if_neg (by omega)]
    rfl

/-- The parser accepts exactly the files of ordered snapshots. -/
theorem parseSnapshot_eq_ok :
    parseSnapshot backend sidechainId bytes = .ok snapshot ↔
      FileOf backend sidechainId snapshot bytes := by
  have digest : kDigestSize.toNat = 32 := by decide
  have least : (kPrefixSize + kDigestSize).toNat = 120 := by decide
  unfold parseSnapshot
  simp only [throw, throwThe, MonadExceptOf.throw]
  rw [except_guard_eq_ok, digest, least]
  constructor
  · rintro ⟨long, parsed⟩
    obtain ⟨matching, parsed⟩ := except_guard_eq_ok.mp parsed
    obtain ⟨rest, read⟩ := cursor_run_eq_ok.mp parsed
    obtain ⟨nonzero, count, valid, increasing, ended, region, encoded,
      whole⟩ := readSnapshot_eq_ok.mp read
    refine ⟨nonzero, count, valid, increasing, region, encoded, ?_⟩
    have cut :
        bytes.length - 32 =
          (prefixBytes sidechainId snapshot.checkpoint
            (UInt64.ofNat snapshot.records.length) ++ region).length := by
      rw [whole, List.length_append, ended]
      omega
    have body :
        bytes.take (bytes.length - 32) =
          prefixBytes sidechainId snapshot.checkpoint
            (UInt64.ofNat snapshot.records.length) ++ region := by
      rw [cut, whole, List.take_left]
    have last : bytes.drop (bytes.length - 32) = rest := by
      rw [cut, whole, List.drop_left]
    rw [body, last] at matching
    have fits := ofBigEndian_lt rest
    have spelled := bigEndian_ofBigEndian rest
    rw [ended] at fits spelled
    rw [sealedBytes, not_not.mp matching, hashBytes_ofNat fits, spelled,
      whole]
  · rintro ⟨nonzero, count, valid, increasing, region, encoded, rfl⟩
    have sealedShape :
        sealedBytes backend
            (prefixBytes sidechainId snapshot.checkpoint
              (UInt64.ofNat snapshot.records.length) ++ region) =
          prefixBytes sidechainId snapshot.checkpoint
              (UInt64.ofNat snapshot.records.length) ++ region ++
            hashBytes (backend.cnFastHash
              (prefixBytes sidechainId snapshot.checkpoint
                (UInt64.ofNat snapshot.records.length) ++ region)) :=
      rfl
    have ended (hash : Hash256) : (hashBytes hash).length = 32 := by
      simp [hashBytes]
    have cut :
        (sealedBytes backend
          (prefixBytes sidechainId snapshot.checkpoint
            (UInt64.ofNat snapshot.records.length) ++ region)).length - 32 =
          (prefixBytes sidechainId snapshot.checkpoint
            (UInt64.ofNat snapshot.records.length) ++ region).length := by
      rw [sealedShape, List.length_append, ended]
      omega
    refine ⟨?_, except_guard_eq_ok.mpr ⟨?_, ?_⟩⟩
    · rw [sealedShape, List.length_append, List.length_append,
        length_prefixBytes, ended]
      omega
    · rw [cut, sealedShape, List.take_left, List.drop_left]
      have fits := (backend.cnFastHash
        (prefixBytes sidechainId snapshot.checkpoint
          (UInt64.ofNat snapshot.records.length) ++ region)).isLt
      rw [hashBytes, ofBigEndian_bigEndian_of_lt (by norm_num; exact fits),
        BitVec.ofNat_toNat, BitVec.setWidth_eq]
      exact not_not_intro rfl
    · exact cursor_run_eq_ok.mpr ⟨_, readSnapshot_eq_ok.mpr
        ⟨nonzero, count, valid, increasing, ended _, region, encoded,
          sealedShape⟩⟩

/-- The digest at the end of a file is the hash of what precedes it. -/
theorem drop_sealedBytes
    (body : List UInt8) :
    (sealedBytes backend body).drop
        ((sealedBytes backend body).length - 32) =
      hashBytes (backend.cnFastHash
        ((sealedBytes backend body).take
          ((sealedBytes backend body).length - 32))) := by
  have cut : (sealedBytes backend body).length - 32 = body.length := by
    simp [sealedBytes, hashBytes]
  rw [cut, sealedBytes, List.drop_left, List.take_left]

/-- The sidechain id and the record count stand at fixed places. -/
theorem FileOf.fields
    (file : FileOf backend sidechainId snapshot bytes) :
    bytes.take 8 = kMagic ∧
    (bytes.drop 8).take 32 = hashBytes sidechainId ∧
    ofBigEndian ((bytes.drop 80).take 8) = snapshot.records.length ∧
    bytes.length = 120 + 99 * snapshot.records.length := by
  obtain ⟨_, count, _, _, region, encoded, rfl⟩ := file
  have counted := toNat_recordCount count
  have regionLength := length_recordRegion encoded
  have behindCount :
      (sealedBytes backend
        (prefixBytes sidechainId snapshot.checkpoint
          (UInt64.ofNat snapshot.records.length) ++ region)).drop 80 =
        appendU64Be (UInt64.ofNat snapshot.records.length) ++
          (region ++ hashBytes (backend.cnFastHash
            (prefixBytes sidechainId snapshot.checkpoint
              (UInt64.ofNat snapshot.records.length) ++ region))) := by
    rw [sealedBytes, prefixBytes, List.append_assoc, List.append_assoc]
    exact List.drop_left' (by simp [kMagic, hashBytes, appendU64Be])
  refine ⟨?_, ?_, ?_, ?_⟩
  · simp [sealedBytes, prefixBytes, kMagic]
  · have behindMagic :
        (sealedBytes backend
          (prefixBytes sidechainId snapshot.checkpoint
            (UInt64.ofNat snapshot.records.length) ++ region)).drop 8 =
          hashBytes sidechainId ++
            (appendU64Be snapshot.checkpoint.zanoHeight ++
              hashBytes snapshot.checkpoint.blockHash ++
              appendU64Be (UInt64.ofNat snapshot.records.length) ++ region ++
              hashBytes (backend.cnFastHash
                (prefixBytes sidechainId snapshot.checkpoint
                  (UInt64.ofNat snapshot.records.length) ++ region))) := by
      simp [sealedBytes, prefixBytes, kMagic]
    rw [behindMagic]
    exact List.take_left' (by simp [hashBytes])
  · rw [behindCount, List.take_left' (by simp [appendU64Be]), appendU64Be,
      ofBigEndian_bigEndian_of_lt
        (UInt64.ofNat snapshot.records.length).toNat_lt, counted]
  · rw [sealedBytes, List.length_append, List.length_append,
      length_prefixBytes, regionLength, hashBytes, length_bigEndian]
    omega

/-- No byte can be cut off a file or added to it. -/
theorem parseSnapshot_exact
    {others : List UInt8}
    {otherSnapshot : ReplayValidationSnapshot}
    (parsed : parseSnapshot backend sidechainId bytes = .ok snapshot)
    (otherParsed :
      parseSnapshot backend sidechainId others = .ok otherSnapshot)
    (leading : bytes <+: others) :
    bytes = others := by
  obtain ⟨_, _, count, length⟩ := (parseSnapshot_eq_ok.mp parsed).fields
  obtain ⟨_, _, otherCount, otherLength⟩ :=
    (parseSnapshot_eq_ok.mp otherParsed).fields
  obtain ⟨extra, rfl⟩ := leading
  have sameCount :
      ((bytes ++ extra).drop 80).take 8 = (bytes.drop 80).take 8 := by
    rw [List.drop_append_of_le_length (by omega),
      List.take_append_of_le_length (by rw [List.length_drop]; omega)]
  rw [sameCount, count] at otherCount
  have nothing : extra = [] := by
    rw [List.length_append] at otherLength
    exact List.length_eq_zero_iff.mp (by omega)
  rw [nothing, List.append_nil]

end Snapshots

end ReplayValidationStore

open ReplayValidationStore

/--
A serialized snapshot is read back with its records sorted, whatever their order
was; an accepted file is the serialization of what is read, and is complete,
ordered, consistent and sealed by its digest.
-/
theorem replayValidationFormat_canonical
    (backend : Backend)
    (sidechainId : SidechainId) :
    (∀ snapshot bytes,
      serializeSnapshot backend sidechainId snapshot = .ok bytes →
        parseSnapshot backend sidechainId bytes =
          .ok (sortedSnapshot snapshot)) ∧
    (∀ checkpoint records permuted bytes,
      records.Perm permuted →
      serializeSnapshot backend sidechainId { checkpoint, records } =
          .ok bytes →
        serializeSnapshot backend sidechainId
          { checkpoint, records := permuted } = .ok bytes) ∧
    (∀ bytes snapshot,
      parseSnapshot backend sidechainId bytes = .ok snapshot →
        serializeSnapshot backend sidechainId snapshot = .ok bytes ∧
        (snapshot.records.map
          ReplayValidationRecord.shareId).Pairwise (· < ·) ∧
        (∀ record ∈ snapshot.records, validateRecord record = .ok ()) ∧
        (bytes.drop 8).take 32 = hashBytes sidechainId ∧
        bytes.length =
          120 + 99 * ofBigEndian ((bytes.drop 80).take 8) ∧
        bytes.drop (bytes.length - 32) =
          hashBytes
            (backend.cnFastHash (bytes.take (bytes.length - 32)))) ∧
    (∀ bytes others snapshot otherSnapshot,
      parseSnapshot backend sidechainId bytes = .ok snapshot →
      parseSnapshot backend sidechainId others = .ok otherSnapshot →
      bytes <+: others → bytes = others) ∧
    (∀ recordCount : UInt64,
      recordCount ≤ kMaxRecords →
        (expectedSize recordCount).toNat = 120 + 99 * recordCount.toNat) := by
  refine ⟨?_, ?_, ?_, ?_, ?_⟩
  · intro snapshot bytes serialized
    exact parseSnapshot_eq_ok.mpr (serializeSnapshot_eq_ok.mp serialized)
  · intro checkpoint records permuted bytes permutation serialized
    obtain ⟨nonzero, count, valid, increasing, encoded⟩ :=
      serializeSnapshot_eq_ok.mp serialized
    have sameSort :
        permuted.insertionSort recordLe = records.insertionSort recordLe := by
      have reordered :
          (records.insertionSort recordLe).Perm
            (permuted.insertionSort recordLe) :=
        (List.perm_insertionSort recordLe records).trans
          (permutation.trans (List.perm_insertionSort recordLe permuted).symm)
      refine (increasing_perm_eq increasing ?_ reordered).symm
      have sorted := sorted_insertionSort permuted
      rw [Option.toList_none, List.nil_append, List.pairwise_map] at sorted
      rw [Increasing, Option.toList_none, List.nil_append, List.pairwise_map]
      have distinct :
          (permuted.insertionSort recordLe).Pairwise
            (fun left right => left.shareId ≠ right.shareId) := by
        have nodup :
            ((records.insertionSort recordLe).map
              ReplayValidationRecord.shareId).Nodup :=
          List.Pairwise.imp (fun below => below.ne) increasing
        have moved := (reordered.map ReplayValidationRecord.shareId).nodup_iff.mp
          nodup
        rwa [List.Nodup, List.pairwise_map] at moved
      exact sorted.and distinct |>.imp fun both => lt_of_le_of_ne both.1 both.2
    refine serializeSnapshot_eq_ok.mpr ?_
    unfold sortedSnapshot
    dsimp only
    rw [sameSort]
    exact ⟨nonzero, count, valid, increasing, encoded⟩
  · intro bytes snapshot parsed
    have file := parseSnapshot_eq_ok.mp parsed
    obtain ⟨_, identified, counted, length⟩ := file.fields
    refine ⟨?_, ?_, file.valid, identified, by rw [counted, length], ?_⟩
    · refine serializeSnapshot_eq_ok.mpr ?_
      unfold sortedSnapshot
      rw [insertionSort_of_increasing file.increasing]
      exact file
    · have increasing := file.increasing
      rwa [Increasing, Option.toList_none, List.nil_append] at increasing
    · obtain ⟨region, _, rfl⟩ := file.bytes
      exact drop_sealedBytes _
  · intro bytes others snapshot otherSnapshot
    exact parseSnapshot_exact
  · intro recordCount admissible
    exact toNat_expectedSize (UInt64.le_iff_toNat_le.mp admissible)

/-- The result of a share that misses the network difficulty. -/
def sampleRecord (shareId : ShareId) : ReplayValidationRecord where
  shareId := shareId
  validation := {
    pow := { finalHash := 3, mixHash := 4 }
    meetsShareDifficulty := true
    meetsNetworkDifficulty := false
    classification := .share }

/-- Two records out of order. -/
def sampleSnapshot : ReplayValidationSnapshot where
  checkpoint := { zanoHeight := 7, blockHash := 5 }
  records := [sampleRecord 2, sampleRecord 1]

/-- The sample is written and read back in order. -/
theorem sampleSnapshot_sorted :
    ∃ bytes,
      serializeSnapshot countingBackend 9 sampleSnapshot = .ok bytes ∧
        parseSnapshot countingBackend 9 bytes =
          .ok {
            sampleSnapshot with
            records := [sampleRecord 1, sampleRecord 2] } := by
  have sorted :
      sortedSnapshot sampleSnapshot = {
        sampleSnapshot with
        records := [sampleRecord 1, sampleRecord 2] } := by
    decide +kernel
  have valid : ∀ record ∈ [sampleRecord 1, sampleRecord 2],
      validateRecord record = .ok () := by
    decide +kernel
  obtain ⟨region, encoded⟩ := exists_recordRegion valid
  obtain ⟨bytes, file⟩ :
      ∃ bytes,
        FileOf countingBackend 9 (sortedSnapshot sampleSnapshot) bytes := by
    rw [sorted]
    exact ⟨_, by decide +kernel, by decide +kernel, valid,
      by unfold Increasing; decide +kernel, region, encoded, rfl⟩
  have serialized := serializeSnapshot_eq_ok.mpr file
  have law := replayValidationFormat_canonical countingBackend 9
  refine ⟨bytes, serialized, ?_⟩
  rw [← sorted]
  exact law.1 _ _ serialized

end ZanoP2pool
