import ZanoP2pool.MiningWorkPublication

namespace ZanoP2pool

open Foundation

/-!
# Records of the archive

A record name spells its identity and is never that of a temporary file, and a
record is read back as its payload.  Where every other file is a whole record, a
read finds exactly the records and a listing or verification passes over all of
them.
-/

namespace MiningWorkDirectory

variable {backend : Backend} {directory next : MiningWorkDirectory}
variable {payload existing : List UInt8} {name other : List UInt8}

section Names

theorem isNameDigit_hexDigit (byte : UInt8) :
    isNameDigit (hexDigit (byte >>> 4)) = true ∧
      isNameDigit (hexDigit (byte &&& 0x0f)) = true := by
  have every :
      ∀ value : Fin 256,
        isNameDigit (hexDigit (UInt8.ofNat value.val >>> 4)) = true ∧
          isNameDigit (hexDigit (UInt8.ofNat value.val &&& 0x0f)) = true := by
    decide +kernel
  have here := every ⟨byte.toNat, byte.toNat_lt⟩
  simpa only [UInt8.ofNat_toNat] using here

theorem all_isNameDigit_bytesToHex (bytes : List UInt8) :
    (bytesToHex bytes).all isNameDigit = true := by
  induction bytes with
  | nil => rfl
  | cons byte rest inductionHypothesis =>
      obtain ⟨high, low⟩ := isNameDigit_hexDigit byte
      have shape :
          bytesToHex (byte :: rest) =
            hexDigit (byte >>> 4) :: hexDigit (byte &&& 0x0f) ::
              bytesToHex rest := rfl
      rw [shape, List.all_cons, List.all_cons, high, low,
        inductionHypothesis]
      rfl

theorem isNameDigit_ne_dot
    {byte : UInt8}
    (digit : isNameDigit byte = true) :
    byte ≠ 0x2e := by
  intro isDot
  rw [isDot] at digit
  exact absurd digit (by decide)

theorem length_bytesToHex (bytes : List UInt8) :
    (bytesToHex bytes).length = 2 * bytes.length := by
  induction bytes with
  | nil => rfl
  | cons byte rest inductionHypothesis =>
      have shape :
          (bytesToHex (byte :: rest)).length =
            (bytesToHex rest).length + 2 := rfl
      rw [shape, inductionHypothesis, List.length_cons]
      omega

/-- The last dot of a record name is the one before its extension. -/
theorem splitExtension_recordName (id : Hash256) :
    splitExtension (recordName id) =
      (bytesToHex (hashBytes id), workExtension) := by
  have length : (bytesToHex (hashBytes id)).length = 64 := by
    rw [length_bytesToHex, length_hashBytes']
  have tail :
      (recordName id).reverse =
        [0x6b, 0x72, 0x6f, 0x77] ++
          (0x2e :: (bytesToHex (hashBytes id)).reverse) := by
    simp [recordName, workExtension]
  have afterDot :
      ((recordName id).reverse.takeWhile (· ≠ 0x2e)).length = 4 := by
    rw [tail]
    rfl
  have whole : (recordName id).length = 69 := by
    rw [recordName, List.length_append, length]
    rfl
  unfold splitExtension
  simp only [afterDot, whole]
  rw [if_neg (by decide), recordName, List.take_left' length,
    List.drop_left' length]

/-- A record name is read back as its identity. -/
theorem idFromFilename_recordName
    (refusal : String)
    (id : Hash256) :
    idFromFilename refusal (recordName id) = .ok id := by
  have length : (bytesToHex (hashBytes id)).length = 64 := by
    rw [length_bytesToHex, length_hashBytes']
  unfold idFromFilename
  rw [splitExtension_recordName]
  dsimp only
  rw [if_neg (by simp [length, all_isNameDigit_bytesToHex]),
    hexToBytes_bytesToHex]
  simp only [bind, Except.bind, pure, Except.pure, ofBigEndian_hashBytes]

theorem recordName_injective
    {first second : Hash256}
    (same : recordName first = recordName second) :
    first = second := by
  have firstRead := idFromFilename_recordName "" first
  rw [same, idFromFilename_recordName] at firstRead
  exact (Except.ok.inj firstRead).symm

/-- A record name is not the name of a temporary file. -/
theorem isTemporaryName_recordName (id : Hash256) :
    isTemporaryName (recordName id) = false := by
  have digits := all_isNameDigit_bytesToHex (hashBytes id)
  have length : (bytesToHex (hashBytes id)).length = 64 := by
    rw [length_bytesToHex, length_hashBytes']
  unfold isTemporaryName recordName
  cases shape : bytesToHex (hashBytes id) with
  | nil => rw [shape] at length; cases length
  | cons first rest =>
      rw [shape, List.all_cons, Bool.and_eq_true] at digits
      have notDot := isNameDigit_ne_dot digits.1
      have differs : ((0x2e : UInt8) == first) = false := by
        simpa using Ne.symm notDot
      simp [temporaryStart, List.isPrefixOf, differs]

end Names

section Files

@[simp] theorem sidechainId_create
    (content : Option (List UInt8)) :
    (directory.create name content).sidechainId = directory.sidechainId :=
  rfl

@[simp] theorem sidechainId_appendTo
    (bytes : List UInt8) :
    (directory.appendTo name bytes).sidechainId = directory.sidechainId :=
  rfl

@[simp] theorem sidechainId_unlink :
    (directory.unlink name).sidechainId = directory.sidechainId :=
  rfl

theorem fileNamed_create
    {content : Option (List UInt8)}
    (unused : directory.fileNamed name = none) :
    (directory.create name content).fileNamed other =
      if name = other then some { name, content }
      else directory.fileNamed other :=
  atKey_append unused

theorem fileNamed_appendTo
    (bytes : List UInt8) :
    (directory.appendTo name bytes).fileNamed other =
      if other = name then
        (directory.fileNamed other).map fun file =>
          { file with content := file.content.map (· ++ bytes) }
      else
        directory.fileNamed other :=
  atKey_change fun _ => rfl

theorem fileNamed_unlink :
    (directory.unlink name).fileNamed other =
      if other = name then none else directory.fileNamed other :=
  atKey_remove

theorem contentOf_eq (id : Hash256) :
    directory.contentOf id =
      (directory.fileNamed (recordName id)).bind WorkFile.content :=
  rfl

end Files

section Records

/-- The payload sizes the archive accepts. -/
def Sized (payload : List UInt8) : Prop :=
  kP2pMiningContextFixedPayloadSize ≤ payload.length ∧
    payload.length ≤ kP2pMaxPayloadSize

theorem checkPayloadSize_eq_ok :
    checkPayloadSize payload.length = .ok () ↔ Sized payload := by
  unfold checkPayloadSize Sized
  split_ifs with refused
  · exact iff_of_false (fun same => by cases same) (by omega)
  · exact iff_of_true rfl (by omega)

/-- The file of a payload, under its final name. -/
def recordFile
    (backend : Backend)
    (sidechainId : SidechainId)
    (payload : List UInt8) :
    WorkFile where
  name := recordName (backend.cnFastHash payload)
  content := some (recordBytes backend sidechainId payload)

/-- The record of a payload is read back as the payload. -/
theorem read_recordFile
    (sized : Sized payload)
    (found :
      directory.fileNamed (recordName (backend.cnFastHash payload)) =
        some (recordFile backend directory.sidechainId payload)) :
    directory.read backend (backend.cnFastHash payload) = .ok payload := by
  obtain ⟨least, most⟩ := sized
  have bounds :
      kP2pMiningContextFixedPayloadSize = 121 ∧
        kP2pMaxPayloadSize = 65536 := ⟨rfl, rfl⟩
  have sid := length_hashBytes' directory.sidechainId
  have len := length_bigEndian 4 payload.length
  generalize lengthBytes : bigEndian 4 payload.length = lengthPart at len
  generalize sidBytes : hashBytes directory.sidechainId = sidPart at sid
  have number : ofBigEndian lengthPart = payload.length := by
    rw [← lengthBytes]
    exact ofBigEndian_bigEndian_of_lt (by norm_num; omega)
  generalize digest :
    hashBytes (backend.cnFastHash (magic ++ sidPart ++ lengthPart ++ payload)) =
      digestPart
  have digestLength : digestPart.length = 32 := by
    rw [← digest]
    exact length_hashBytes' _
  have content :
      directory.contentOf (backend.cnFastHash payload) =
        some (magic ++ sidPart ++ lengthPart ++ payload ++ digestPart) := by
    rw [contentOf_eq, found]
    simp only [recordFile, recordBytes, lengthBytes, sidBytes, digest,
      Option.bind_some]
  have magicLength : magic.length = 8 := rfl
  have headLength :
      (magic ++ sidPart ++ lengthPart ++ payload).length =
        headerSize + payload.length := by
    simp only [List.length_append, magicLength, sid, len, headerSize]
  have wholeLength :
      (magic ++ sidPart ++ lengthPart ++ payload ++ digestPart).length =
        headerSize + payload.length + digestSize := by
    rw [List.length_append, headLength, digestLength]
    rfl
  have atMagic :
      (magic ++ sidPart ++ lengthPart ++ payload ++ digestPart).take 8 =
        magic := by
    rw [List.append_assoc, List.append_assoc, List.append_assoc]
    exact List.take_left' magicLength
  have atSidechain :
      ((magic ++ sidPart ++ lengthPart ++ payload ++ digestPart).drop
          8).take 32 = sidPart := by
    rw [List.append_assoc, List.append_assoc, List.append_assoc,
      List.drop_left' magicLength]
    exact List.take_left' sid
  have atLength :
      ((magic ++ sidPart ++ lengthPart ++ payload ++ digestPart).drop
          40).take 4 = lengthPart := by
    rw [List.append_assoc, List.append_assoc,
      List.drop_left' (by simp [magicLength, sid])]
    exact List.take_left' len
  have atPayload :
      ((magic ++ sidPart ++ lengthPart ++ payload ++ digestPart).drop
          headerSize).take payload.length = payload := by
    rw [List.append_assoc,
      List.drop_left' (by simp [magicLength, sid, len, headerSize])]
    exact List.take_left' rfl
  have atHead :
      (magic ++ sidPart ++ lengthPart ++ payload ++ digestPart).take
          (headerSize + payload.length) =
        magic ++ sidPart ++ lengthPart ++ payload :=
    List.take_left' headLength
  have atDigest :
      (magic ++ sidPart ++ lengthPart ++ payload ++ digestPart).drop
          (headerSize + payload.length) = digestPart :=
    List.drop_left' headLength
  unfold read
  rw [content]
  simp only [atLength, number, atPayload, atHead, atMagic, atSidechain,
    atDigest, wholeLength, sidBytes, digest, ne_eq, not_true_eq_false,
    or_self, if_false]
  rw [if_neg (by omega), if_neg (by omega)]
  rfl

/-- Every file is temporary or the record of a payload, and names are distinct. -/
structure Intact (backend : Backend) (directory : MiningWorkDirectory) :
    Prop where
  distinct : DistinctKeys WorkFile.name directory.files
  entries :
    ∀ file ∈ directory.files,
      isTemporaryName file.name = true ∨
        ∃ payload,
          Sized payload ∧
          file = recordFile backend directory.sidechainId payload

namespace Intact

/-- Whatever stands under the name of a record is that record. -/
theorem record_of_fileNamed
    (intact : Intact backend directory)
    {id : Hash256}
    {file : WorkFile}
    (found : directory.fileNamed (recordName id) = some file) :
    ∃ payload,
      backend.cnFastHash payload = id ∧
      Sized payload ∧
      file = recordFile backend directory.sidechainId payload ∧
      directory.read backend id = .ok payload := by
  have named := key_of_atKey found
  rcases intact.entries file (mem_of_atKey found) with
    temporary | ⟨payload, sized, rfl⟩
  · rw [named, isTemporaryName_recordName] at temporary
    cases temporary
  · have sameId := recordName_injective named
    refine ⟨payload, sameId, sized, rfl, ?_⟩
    rw [← sameId] at found ⊢
    exact read_recordFile sized found

/-- A read finds exactly the records of the directory. -/
theorem read_eq_ok
    (intact : Intact backend directory)
    {id : Hash256} :
    directory.read backend id = .ok payload ↔
      backend.cnFastHash payload = id ∧ Sized payload ∧
        directory.fileNamed (recordName id) =
          some (recordFile backend directory.sidechainId payload) := by
  constructor
  · intro reads
    cases found : directory.fileNamed (recordName id) with
    | none =>
        unfold read at reads
        rw [contentOf_eq, found] at reads
        cases reads
    | some file =>
        obtain ⟨stored, sameId, sized, rfl, storedReads⟩ :=
          intact.record_of_fileNamed found
        rw [reads] at storedReads
        cases storedReads
        exact ⟨sameId, sized, rfl⟩
  · rintro ⟨rfl, sized, found⟩
    exact read_recordFile sized found

/-- The records among some files of the directory, by their names. -/
def recordNames (files : List WorkFile) : List (List UInt8) :=
  (files.filter fun file => !isTemporaryName file.name).map WorkFile.name

theorem recordNames_cons
    (file : WorkFile)
    (rest : List WorkFile) :
    recordNames (file :: rest) =
      if isTemporaryName file.name then recordNames rest
      else file.name :: recordNames rest := by
  unfold recordNames
  rw [List.filter_cons]
  by_cases temporary : isTemporaryName file.name = true
  · simp [temporary]
  · simp [temporary]

/-- A record of the directory passes the checks of a scan. -/
theorem scan
    (intact : Intact backend directory)
    (refusal : String)
    {file : WorkFile}
    (member : file ∈ directory.files)
    (isRecord : isTemporaryName file.name = false) :
    ∃ id payload,
      file.name = recordName id ∧
      (splitExtension file.name).2 = workExtension ∧
      idFromFilename refusal file.name = .ok id ∧
      directory.read backend id = .ok payload := by
  rcases intact.entries file member with
    temporary | ⟨payload, sized, rfl⟩
  · rw [isRecord] at temporary
    cases temporary
  · refine ⟨backend.cnFastHash payload, payload, rfl, ?_, ?_, ?_⟩
    · exact congrArg Prod.snd (splitExtension_recordName _)
    · exact idFromFilename_recordName refusal _
    · exact read_recordFile sized (atKey_of_mem intact.distinct member)

/-- A scan within its limit returns the identities of the records it passes. -/
theorem listIdsFrom_eq
    (intact : Intact backend directory)
    {maxRecords : Nat}
    {files : List WorkFile}
    {ids : List Hash256}
    (part : ∀ file ∈ files, file ∈ directory.files)
    (within : ids.length + (recordNames files).length ≤ maxRecords) :
    ∃ found,
      listIdsFrom backend directory maxRecords files ids =
        .ok (ids ++ found) ∧
      found.map recordName = recordNames files := by
  induction files generalizing ids with
  | nil => exact ⟨[], by simp [listIdsFrom, pure, Except.pure], rfl⟩
  | cons file rest inductionHypothesis =>
      have restPart : ∀ file ∈ rest, file ∈ directory.files :=
        fun file member => part file (List.mem_cons_of_mem _ member)
      rw [recordNames_cons] at within ⊢
      rw [listIdsFrom]
      cases temporary : isTemporaryName file.name with
      | true =>
          rw [temporary, if_pos rfl] at within
          rw [if_pos rfl]
          rw [show temporaryStart.isPrefixOf file.name = true from temporary,
            if_pos rfl]
          exact inductionHypothesis restPart within
      | false =>
          rw [temporary, if_neg (by simp), List.length_cons] at within
          obtain ⟨id, payload, named, extension, idRead, reads⟩ :=
            intact.scan "invalid mining-work archive filename"
              (part file (List.mem_cons_self ..)) temporary
          obtain ⟨found, scanned, names⟩ :=
            @inductionHypothesis (ids ++ [id]) restPart
              (by rw [List.length_append, List.length_singleton]; omega)
          refine ⟨id :: found, ?_, ?_⟩
          · unfold isTemporaryName at temporary
            rw [if_neg (by simp [temporary]), if_neg (by simp [extension]),
              if_neg (by omega), idRead]
            simp only [bind, Except.bind, reads, scanned,
              List.append_assoc, List.singleton_append]
          · rw [if_neg (by simp), List.map_cons, names, named]

/-- The listing of an archive within its limit is the set of its records. -/
theorem listIds_eq
    (intact : Intact backend directory)
    {maxRecords : Nat}
    (within : (recordNames directory.files).length ≤ maxRecords) :
    ∃ ids,
      directory.listIds backend maxRecords = .ok ids ∧
      ids.Pairwise (· ≤ ·) ∧ ids.Nodup ∧
      ∀ id, id ∈ ids ↔ ∃ payload, directory.read backend id = .ok payload := by
  obtain ⟨found, scanned, names⟩ :=
    @listIdsFrom_eq backend directory intact maxRecords directory.files []
      (fun _ member => member) (by simpa using within)
  refine ⟨found.insertionSort (· ≤ ·), ?_, List.pairwise_insertionSort _ _, ?_, ?_⟩
  · unfold listIds
    rw [scanned]
    rfl
  · refine (List.perm_insertionSort _ _).nodup_iff.mpr ?_
    have distinct : (found.map recordName).Nodup := by
      rw [names]
      exact intact.distinct.sublist (List.filter_sublist.map _)
    exact distinct.of_map _
  · intro id
    rw [List.mem_insertionSort]
    have named : id ∈ found ↔ recordName id ∈ recordNames directory.files := by
      rw [← names, List.mem_map_of_injective @recordName_injective]
    rw [named]
    unfold recordNames
    constructor
    · intro member
      obtain ⟨file, listed, sameName⟩ := List.mem_map.mp member
      obtain ⟨inFiles, _⟩ := List.mem_filter.mp listed
      have found : directory.fileNamed (recordName id) = some file := by
        rw [← sameName]
        exact atKey_of_mem intact.distinct inFiles
      obtain ⟨payload, _, _, _, reads⟩ := intact.record_of_fileNamed found
      exact ⟨payload, reads⟩
    · rintro ⟨payload, reads⟩
      obtain ⟨_, _, found⟩ := intact.read_eq_ok.mp reads
      refine List.mem_map.mpr ⟨_, List.mem_filter.mpr
        ⟨mem_of_atKey found, ?_⟩, key_of_atKey found⟩
      rw [key_of_atKey found, isTemporaryName_recordName]
      rfl

/-- The full verification counts the records. -/
theorem verifyAll_eq
    (intact : Intact backend directory) :
    directory.verifyAll backend =
      .ok (recordNames directory.files).length := by
  have scanned :
      ∀ files : List WorkFile, (∀ file ∈ files, file ∈ directory.files) →
        ∀ count,
          verifyAllFrom backend directory files count =
            .ok (count + (recordNames files).length) := by
    intro files
    induction files with
    | nil => intro _ count; rfl
    | cons file rest inductionHypothesis =>
        intro part count
        have later := inductionHypothesis fun file member =>
          part file (List.mem_cons_of_mem _ member)
        rw [verifyAllFrom, recordNames_cons]
        cases temporary : isTemporaryName file.name with
        | true =>
            rw [if_pos rfl, if_pos rfl]
            exact later count
        | false =>
            obtain ⟨id, payload, _, extension, idRead, reads⟩ :=
              intact.scan "invalid mining-work archive filename"
                (part file (List.mem_cons_self ..)) temporary
            rw [if_neg (by simp), if_neg (by simp [extension]),
              if_neg (by simp), idRead]
            simp only [bind, Except.bind, reads, later, List.length_cons]
            congr 1
            omega
  have whole := scanned directory.files (fun _ member => member) 0
  rw [Nat.zero_add] at whole
  exact whole

end Intact

end Records

end MiningWorkDirectory

end ZanoP2pool
