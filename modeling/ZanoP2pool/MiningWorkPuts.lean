import ZanoP2pool.MiningWorkRecords

namespace ZanoP2pool

open Foundation MiningWorkDirectory

/-!
# Concurrent puts publish whole records

A record gets its name by a link to a file that is already complete, so whatever
the interleaving and wherever writers fail or stop, every named file of the
archive is a whole record of its identity, and it stays.
-/

/-- The refusal of a payload whose identity names another record. -/
def conflictingRecord : Exception :=
  .runtimeError "conflicting mining-work archive record"

namespace PutPhase

/-- The temporary file that the `put` has created. -/
def temporary? : PutPhase → Option (List UInt8)
  | .comparing _ temporary => temporary
  | .writing _ temporary _ => some temporary
  | .flushing _ temporary => some temporary
  | .linking _ temporary => some temporary
  | .unlinking _ temporary => some temporary
  | .syncing _ temporary => temporary
  | .cleaning _ temporary _ => some temporary
  | _ => none

/-- The payload of the `put`. -/
def payload? : PutPhase → Option (List UInt8)
  | .idle => none
  | .opening payload => some payload
  | .looking payload => some payload
  | .comparing payload _ => some payload
  | .creating payload => some payload
  | .writing payload _ _ => some payload
  | .flushing payload _ => some payload
  | .linking payload _ => some payload
  | .unlinking payload _ => some payload
  | .syncing payload _ => some payload
  | .cleaning payload _ _ => some payload
  | .returned payload => some payload
  | .threw payload _ => some payload

/-- The record of the payload stands under its name. -/
def Published
    (backend : Backend)
    (directory : MiningWorkDirectory)
    (payload : List UInt8) :
    Prop :=
  Sized payload ∧
    directory.fileNamed (recordName (backend.cnFastHash payload)) =
      some (recordFile backend directory.sidechainId payload)

/-- The record of another payload stands under the name of this one. -/
def Conflicting
    (backend : Backend)
    (directory : MiningWorkDirectory)
    (payload : List UInt8) :
    Prop :=
  ∃ existing,
    existing ≠ payload ∧
    backend.cnFastHash existing = backend.cnFastHash payload ∧
    Published backend directory existing

/-- A temporary file holds the bytes of the record but those still to come. -/
def Holding
    (backend : Backend)
    (directory : MiningWorkDirectory)
    (payload temporary rest : List UInt8) :
    Prop :=
  Sized payload ∧
    ∃ written,
      directory.fileNamed temporary =
        some { name := temporary, content := some written } ∧
      written ++ rest = recordBytes backend directory.sidechainId payload

/-- What a writer can rely on in each phase. -/
def Keeps
    (backend : Backend)
    (directory : MiningWorkDirectory) :
    PutPhase → Prop
  | .idle => True
  | .opening payload => Sized payload
  | .looking payload => Sized payload
  | .comparing payload _ =>
      Sized payload ∧
        (directory.fileNamed
          (recordName (backend.cnFastHash payload))).isSome = true
  | .creating payload => Sized payload
  | .writing payload temporary rest =>
      Holding backend directory payload temporary rest
  | .flushing payload temporary =>
      Holding backend directory payload temporary []
  | .linking payload temporary =>
      Holding backend directory payload temporary []
  | .unlinking payload _ => Published backend directory payload
  | .syncing payload _ => Published backend directory payload
  | .cleaning payload _ thrown =>
      thrown = conflictingRecord → Conflicting backend directory payload
  | .returned payload => Published backend directory payload
  | .threw payload thrown =>
      thrown = conflictingRecord → Conflicting backend directory payload

end PutPhase

/-- The files that one answer to a writer leaves as they were. -/
def Frame
    (touched : Option (List UInt8))
    (directory next : MiningWorkDirectory) :
    Prop :=
  next.sidechainId = directory.sidechainId ∧
    ∀ name file,
      touched ≠ some name →
      directory.fileNamed name = some file →
      next.fileNamed name = some file

theorem Frame.refl
    {touched : Option (List UInt8)}
    {directory : MiningWorkDirectory} :
    Frame touched directory directory :=
  ⟨rfl, fun _ _ _ found => found⟩

namespace PutPhase

variable {backend : Backend} {directory next : MiningWorkDirectory}
variable {payload temporary rest : List UInt8} {phase following : PutPhase}
variable {touched : Option (List UInt8)}

theorem Published.frame
    (published : Published backend directory payload)
    (frame : Frame touched directory next)
    (isTemporary : ∀ name ∈ touched, isTemporaryName name = true) :
    Published backend next payload := by
  obtain ⟨sized, found⟩ := published
  refine ⟨sized, ?_⟩
  rw [frame.1]
  refine frame.2 _ _ ?_ found
  intro same
  have temporary := isTemporary _ same
  rw [isTemporaryName_recordName] at temporary
  cases temporary

theorem Conflicting.frame
    (conflicting : Conflicting backend directory payload)
    (frame : Frame touched directory next)
    (isTemporary : ∀ name ∈ touched, isTemporaryName name = true) :
    Conflicting backend next payload := by
  obtain ⟨existing, differs, sameId, published⟩ := conflicting
  exact ⟨existing, differs, sameId, published.frame frame isTemporary⟩

theorem Holding.frame
    (holding : Holding backend directory payload temporary rest)
    (frame : Frame touched directory next)
    (other : touched ≠ some temporary) :
    Holding backend next payload temporary rest := by
  obtain ⟨sized, written, found, whole⟩ := holding
  refine ⟨sized, written, frame.2 _ _ other found, ?_⟩
  rw [frame.1]
  exact whole

/-- What a writer relies on survives the calls of the others. -/
theorem Keeps.frame
    (keeps : phase.Keeps backend directory)
    (frame : Frame touched directory next)
    (isTemporary : ∀ name ∈ touched, isTemporaryName name = true)
    (apart : ∀ name ∈ touched, phase.temporary? ≠ some name) :
    phase.Keeps backend next := by
  have other : ∀ own, phase.temporary? = some own → touched ≠ some own :=
    fun own owns same => apart own same owns
  cases phase with
  | idle => trivial
  | opening payload => exact keeps
  | looking payload => exact keeps
  | comparing payload temporary =>
      obtain ⟨sized, present⟩ := keeps
      obtain ⟨file, found⟩ := Option.isSome_iff_exists.mp present
      refine ⟨sized, Option.isSome_iff_exists.mpr ⟨file, ?_⟩⟩
      refine frame.2 _ _ ?_ found
      intro same
      have temporary := isTemporary _ same
      rw [isTemporaryName_recordName] at temporary
      cases temporary
  | creating payload => exact keeps
  | writing payload temporary rest =>
      exact Holding.frame keeps frame (other _ rfl)
  | flushing payload temporary =>
      exact Holding.frame keeps frame (other _ rfl)
  | linking payload temporary =>
      exact Holding.frame keeps frame (other _ rfl)
  | unlinking payload temporary => exact Published.frame keeps frame isTemporary
  | syncing payload temporary => exact Published.frame keeps frame isTemporary
  | cleaning payload temporary thrown =>
      exact fun conflict => (keeps conflict).frame frame isTemporary
  | returned payload => exact Published.frame keeps frame isTemporary
  | threw payload thrown =>
      exact fun conflict => (keeps conflict).frame frame isTemporary

/-- An answer keeps the archive intact and the writer within its phases. -/
structure Advanced
    (backend : Backend)
    (directory next : MiningWorkDirectory)
    (phase following : PutPhase)
    (answer : SystemAnswer) :
    Prop where
  intact : next.Intact backend
  keeps : following.Keeps backend next
  frame : Frame phase.temporary? directory next
  temporary :
    ∀ name, following.temporary? = some name →
      phase.temporary? = some name ∨
        (answer = .named name ∧ isTemporaryName name = true)

theorem temporary?_fail
    (payload : List UInt8)
    (name : Option (List UInt8))
    (thrown : Exception) :
    (fail payload name thrown).temporary? = name := by
  cases name <;> rfl

theorem payload?_fail
    (payload : List UInt8)
    (name : Option (List UInt8))
    (thrown : Exception) :
    (fail payload name thrown).payload? = some payload := by
  cases name <;> rfl

theorem keeps_fail
    {thrown : Exception}
    (conflicting :
      thrown = conflictingRecord → Conflicting backend directory payload)
    (name : Option (List UInt8)) :
    (fail payload name thrown).Keeps backend directory := by
  cases name with
  | none => exact conflicting
  | some name => exact conflicting

/-- The phase after a comparison with the record of the same name. -/
theorem compare_advanced
    (intact : directory.Intact backend)
    (temporary : Option (List UInt8))
    (keeps : (comparing payload temporary).Keeps backend directory) :
    (compare backend directory payload temporary).Keeps backend directory ∧
      (compare backend directory payload temporary).temporary? =
        temporary := by
  obtain ⟨sized, present⟩ := keeps
  obtain ⟨file, found⟩ := Option.isSome_iff_exists.mp present
  obtain ⟨existing, sameId, existingSized, rfl, reads⟩ :=
    intact.record_of_fileNamed found
  unfold compare
  rw [reads]
  dsimp only
  by_cases same : existing = payload
  · subst same
    rw [if_neg (not_not.mpr rfl)]
    cases temporary with
    | none => exact ⟨⟨sized, found⟩, rfl⟩
    | some name => exact ⟨⟨sized, found⟩, rfl⟩
  · rw [if_pos same]
    rw [← sameId] at found
    exact ⟨keeps_fail
      (fun _ => ⟨existing, same, sameId, existingSized, found⟩) _,
      temporary?_fail _ _ _⟩

/-- An answer after which the directory is as it was. -/
theorem Advanced.same
    {answer : SystemAnswer}
    (intact : directory.Intact backend)
    (keeps : following.Keeps backend directory)
    (temporary :
      ∀ name, following.temporary? = some name →
        phase.temporary? = some name) :
    Advanced backend directory directory phase following answer where
  intact := intact
  keeps := keeps
  frame := .refl
  temporary := fun name owned => .inl (temporary name owned)

/-- Every refusal that is not the one for a collision goes out as it is. -/
theorem Advanced.refused
    {answer : SystemAnswer}
    {thrown : Exception}
    (intact : directory.Intact backend)
    (refusal : thrown ≠ conflictingRecord) :
    Advanced backend directory directory phase
      (fail payload phase.temporary? thrown) answer :=
  .same intact (keeps_fail (fun same => absurd same refusal) _)
    (fun name owned => by rwa [temporary?_fail] at owned)

end PutPhase

namespace MiningWorkDirectory

variable {backend : Backend} {directory : MiningWorkDirectory}
variable {name temporary : List UInt8} {content : Option (List UInt8)}

/-- A file under an unused name leaves the others as they are. -/
theorem frame_create
    {touched : Option (List UInt8)}
    (unused : directory.fileNamed name = none) :
    Frame touched directory (directory.create name content) := by
  refine ⟨rfl, ?_⟩
  intro other file _ found
  have differs : name ≠ other := by
    intro same
    rw [← same, unused] at found
    cases found
  rw [fileNamed_create unused, if_neg differs]
  exact found

theorem frame_appendTo
    (bytes : List UInt8) :
    Frame (some temporary) directory (directory.appendTo temporary bytes) := by
  refine ⟨rfl, ?_⟩
  intro other file apart found
  rw [fileNamed_appendTo, if_neg fun same => apart (by rw [same])]
  exact found

theorem frame_unlink :
    Frame (some temporary) directory (directory.unlink temporary) := by
  refine ⟨rfl, ?_⟩
  intro other file apart found
  rw [fileNamed_unlink, if_neg fun same => apart (by rw [same])]
  exact found

namespace Intact

/-- A new file keeps the archive intact if it is temporary or a record. -/
theorem create
    (intact : Intact backend directory)
    (unused : directory.fileNamed name = none)
    (entry :
      isTemporaryName name = true ∨
        ∃ payload,
          Sized payload ∧
          ({ name, content } : WorkFile) =
            recordFile backend directory.sidechainId payload) :
    Intact backend (directory.create name content) where
  distinct := distinctKeys_append intact.distinct unused
  entries := by
    intro file member
    rcases List.mem_append.mp member with old | new
    · exact intact.entries file old
    · rw [List.mem_singleton.mp new]
      exact entry

theorem appendTo
    (intact : Intact backend directory)
    (isTemporary : isTemporaryName temporary = true)
    (bytes : List UInt8) :
    Intact backend (directory.appendTo temporary bytes) where
  distinct := distinctKeys_change (fun _ => rfl) intact.distinct
  entries := by
    intro file member
    obtain ⟨old, oldMember, rfl⟩ := List.mem_map.mp member
    by_cases changed : old.name = temporary
    · rw [if_pos changed]
      exact .inl (by rw [← changed] at isTemporary; exact isTemporary)
    · rw [if_neg changed]
      exact intact.entries old oldMember

theorem unlink
    (intact : Intact backend directory) :
    Intact backend (directory.unlink temporary) where
  distinct := distinctKeys_remove intact.distinct
  entries := fun file member =>
    intact.entries file (List.mem_filter.mp member).1

end Intact

end MiningWorkDirectory

namespace PutPhase

variable {backend : Backend} {directory next : MiningWorkDirectory}
variable {payload temporary rest : List UInt8} {phase following : PutPhase}

/-- Writing the next bytes of a record to its temporary file. -/
theorem advance_wrote
    (intact : directory.Intact backend)
    (isTemporary : isTemporaryName temporary = true)
    (holding : Holding backend directory payload temporary rest)
    {count : Nat} :
    Advanced backend directory
      (directory.appendTo temporary (rest.take count))
      (.writing payload temporary rest)
      (if count = rest.length then .flushing payload temporary
        else .writing payload temporary (rest.drop count))
      (.wrote count) := by
  obtain ⟨sized, written, found, whole⟩ := holding
  have appended :
      (directory.appendTo temporary (rest.take count)).fileNamed temporary =
        some { name := temporary
               content := some (written ++ rest.take count) } := by
    rw [fileNamed_appendTo, if_pos rfl, found]
    rfl
  have still :
      Holding backend (directory.appendTo temporary (rest.take count)) payload
        temporary (rest.drop count) := by
    refine ⟨sized, _, appended, ?_⟩
    rw [List.append_assoc, List.take_append_drop]
    exact whole
  refine ⟨intact.appendTo isTemporary _, ?_, frame_appendTo _, ?_⟩
  · split_ifs with complete
    · rw [List.drop_eq_nil_of_le complete.ge] at still
      exact still
    · exact still
  · intro name owned
    split_ifs at owned <;> exact .inl owned

/-- Linking a complete temporary file to the name of its record. -/
theorem advance_linked
    (intact : directory.Intact backend)
    (holding : Holding backend directory payload temporary [])
    (unused :
      directory.fileNamed (recordName (backend.cnFastHash payload)) = none)
    {file : WorkFile}
    (found : directory.fileNamed temporary = some file) :
    Advanced backend directory
      (directory.create (recordName (backend.cnFastHash payload)) file.content)
      (.linking payload temporary) (.unlinking payload temporary) .done := by
  obtain ⟨sized, written, here, whole⟩ := holding
  rw [found] at here
  cases here
  rw [List.append_nil] at whole
  subst whole
  refine ⟨intact.create unused (.inr ⟨payload, sized, rfl⟩), ⟨sized, ?_⟩,
    frame_create unused, fun name owned => .inl owned⟩
  rw [fileNamed_create unused, if_pos rfl]
  rfl

/-- Every answer to a writer keeps the archive intact. -/
theorem advance_spec
    {answer : SystemAnswer}
    (intact : directory.Intact backend)
    (keeps : phase.Keeps backend directory)
    (isTemporary :
      ∀ name, phase.temporary? = some name → isTemporaryName name = true)
    (advanced : phase.advance backend directory answer = some (next, following)) :
    Advanced backend directory next phase following answer := by
  cases phase with
  | idle => cases advanced
  | returned payload => cases advanced
  | threw payload thrown => cases advanced
  | opening payload =>
      cases answer with
      | done =>
          cases advanced
          exact .same intact keeps (by simp [temporary?])
      | failed =>
          cases advanced
          exact .refused intact (by decide)
      | interrupted => cases advanced
      | wrote count => cases advanced
      | named name => cases advanced
  | looking payload =>
      cases answer with
      | done =>
          cases advanced
          split_ifs with present
          · exact .same intact ⟨keeps, present⟩ (by simp [temporary?])
          · exact .same intact keeps (by simp [temporary?])
      | failed =>
          cases advanced
          exact .refused intact (by decide)
      | interrupted => cases advanced
      | wrote count => cases advanced
      | named name => cases advanced
  | comparing payload temporary =>
      cases answer with
      | done =>
          cases advanced
          obtain ⟨compared, owner⟩ := compare_advanced intact temporary keeps
          exact .same intact compared
            (fun name owned => by rwa [owner] at owned)
      | failed =>
          cases advanced
          exact .refused intact (by decide)
      | interrupted => cases advanced
      | wrote count => cases advanced
      | named name => cases advanced
  | creating payload =>
      cases answer with
      | named name =>
          simp only [advance] at advanced
          split_ifs at advanced with drawn
          cases advanced
          obtain ⟨isTemp, unused⟩ := drawn
          refine ⟨intact.create unused (.inl isTemp), ⟨keeps, [], ?_, rfl⟩,
            frame_create unused, ?_⟩
          · rw [fileNamed_create unused, if_pos rfl]
          · intro other owned
            cases owned
            exact .inr ⟨rfl, isTemp⟩
      | failed =>
          cases advanced
          exact .refused intact (by decide)
      | done => cases advanced
      | interrupted => cases advanced
      | wrote count => cases advanced
  | writing payload temporary rest =>
      cases answer with
      | wrote count =>
          simp only [advance] at advanced
          by_cases possible : 0 < count ∧ count ≤ rest.length
          · rw [if_pos possible] at advanced
            cases advanced
            exact advance_wrote intact (isTemporary _ rfl) keeps
          · rw [if_neg possible] at advanced
            cases advanced
      | interrupted =>
          cases advanced
          exact .same intact keeps fun _ owned => owned
      | failed =>
          cases advanced
          exact .refused intact (by decide)
      | done => cases advanced
      | named name => cases advanced
  | flushing payload temporary =>
      cases answer with
      | done =>
          cases advanced
          exact .same intact keeps fun _ owned => owned
      | interrupted =>
          cases advanced
          exact .same intact keeps fun _ owned => owned
      | failed =>
          cases advanced
          exact .refused intact (by decide)
      | wrote count => cases advanced
      | named name => cases advanced
  | linking payload temporary =>
      cases answer with
      | done =>
          simp only [advance] at advanced
          split_ifs at advanced with present
          · cases advanced
            exact .same intact ⟨keeps.1, present⟩ fun _ owned => owned
          · rw [Bool.not_eq_true, Option.isSome_eq_false_iff,
              Option.isNone_iff_eq_none] at present
            cases found : directory.fileNamed temporary with
            | none =>
                rw [found] at advanced
                cases advanced
            | some file =>
                rw [found] at advanced
                cases advanced
                exact advance_linked intact keeps present found
      | failed =>
          cases advanced
          exact .refused intact (by decide)
      | interrupted => cases advanced
      | wrote count => cases advanced
      | named name => cases advanced
  | unlinking payload temporary =>
      cases answer with
      | done =>
          cases advanced
          refine ⟨intact.unlink, ?_, frame_unlink, fun _ owned => .inl owned⟩
          refine Published.frame keeps frame_unlink ?_
          intro name isName
          cases isName
          exact isTemporary _ rfl
      | failed =>
          cases advanced
          exact .refused intact (by decide)
      | interrupted => cases advanced
      | wrote count => cases advanced
      | named name => cases advanced
  | syncing payload temporary =>
      cases answer with
      | done =>
          cases advanced
          exact .same intact keeps (by simp [temporary?])
      | interrupted =>
          cases advanced
          exact .same intact keeps fun _ owned => owned
      | failed =>
          cases advanced
          exact .refused intact (by decide)
      | wrote count => cases advanced
      | named name => cases advanced
  | cleaning payload temporary thrown =>
      cases answer with
      | done =>
          cases advanced
          refine ⟨intact.unlink, ?_, frame_unlink, by simp [temporary?]⟩
          intro conflict
          refine (keeps conflict).frame frame_unlink ?_
          rintro name ⟨⟩
          exact isTemporary _ rfl
      | failed =>
          cases advanced
          exact .same intact keeps (by simp [temporary?])
      | interrupted => cases advanced
      | wrote count => cases advanced
      | named name => cases advanced

/-- A comparison is still part of the `put` of the payload. -/
theorem payload?_compare
    (payload : List UInt8)
    (temporary : Option (List UInt8)) :
    (compare backend directory payload temporary).payload? =
      some payload := by
  unfold compare
  cases directory.read backend (backend.cnFastHash payload) with
  | error thrown => exact payload?_fail _ _ _
  | ok existing =>
      dsimp only
      split_ifs with differs
      · exact payload?_fail _ _ _
      · cases temporary <;> rfl

/-- An answer leaves a writer with the payload it has begun with. -/
theorem payload?_advance
    {answer : SystemAnswer}
    (advanced : phase.advance backend directory answer = some (next, following)) :
    following.payload? = phase.payload? := by
  unfold advance at advanced
  split at advanced
  case h_3 payload =>
      cases advanced
      split_ifs <;> rfl
  case h_5 payload temporary =>
      cases advanced
      exact payload?_compare payload temporary
  case h_6 payload temporary =>
      cases advanced
      exact payload?_fail payload temporary _
  case h_7 payload name =>
      split_ifs at advanced
      cases advanced
      rfl
  case h_9 payload temporary rest count =>
      split_ifs at advanced
      all_goals
        cases advanced
        rfl
  case h_15 payload temporary =>
      dsimp only at advanced
      split_ifs at advanced
      · cases advanced
        rfl
      · cases found : directory.fileNamed temporary with
        | none =>
            rw [found] at advanced
            cases advanced
        | some file =>
            rw [found] at advanced
            cases advanced
            rfl
  case h_21 payload temporary =>
      cases advanced
      exact payload?_fail payload temporary _
  all_goals cases advanced
  all_goals rfl

end PutPhase

namespace WorkPublication

variable {backend : Backend} {drawn : List (List UInt8)}
variable {publication next start final : WorkPublication}

/-- The archive is intact and no two writers share a temporary file. -/
structure Consistent
    (backend : Backend)
    (drawn : List (List UInt8))
    (publication : WorkPublication) :
    Prop where
  intact : publication.directory.Intact backend
  keeps :
    ∀ writer, (publication.phases writer).Keeps backend publication.directory
  owned :
    ∀ writer name, (publication.phases writer).temporary? = some name →
      name ∈ drawn ∧ isTemporaryName name = true
  separate :
    ∀ first second name,
      (publication.phases first).temporary? = some name →
      (publication.phases second).temporary? = some name →
        first = second

/-- Every record that could be read before can be read after. -/
def KeepsRecords
    (backend : Backend)
    (directory next : MiningWorkDirectory) :
    Prop :=
  ∀ id payload,
    directory.read backend id = .ok payload →
      next.read backend id = .ok payload

theorem keepsRecords_of_frame
    {directory next : MiningWorkDirectory}
    {touched : Option (List UInt8)}
    (intact : directory.Intact backend)
    (nextIntact : next.Intact backend)
    (frame : Frame touched directory next)
    (isTemporary : ∀ name ∈ touched, isTemporaryName name = true) :
    KeepsRecords backend directory next := by
  intro id payload reads
  obtain ⟨sameId, sized, found⟩ := intact.read_eq_ok.mp reads
  subst sameId
  obtain ⟨_, foundNext⟩ :=
    PutPhase.Published.frame ⟨sized, found⟩ frame isTemporary
  exact nextIntact.read_eq_ok.mpr ⟨rfl, sized, foundNext⟩

/-- A phase that owns nothing takes the place of another. -/
theorem Consistent.replace
    (consistent : Consistent backend drawn publication)
    (writer : Nat)
    {phase : PutPhase}
    (keeps : phase.Keeps backend publication.directory)
    (ownsNothing : phase.temporary? = none) :
    Consistent backend drawn
      { publication with
        phases := Function.update publication.phases writer phase } := by
  have others :
      ∀ other name,
        (Function.update publication.phases writer phase other).temporary? =
            some name →
          (publication.phases other).temporary? = some name := by
    intro other name owns
    by_cases same : other = writer
    · subst same
      rw [Function.update_self, ownsNothing] at owns
      cases owns
    · rwa [Function.update_of_ne same] at owns
  refine ⟨consistent.intact, ?_, ?_, ?_⟩
  · intro other
    by_cases same : other = writer
    · subst same
      simpa only [Function.update_self] using keeps
    · simpa only [Function.update_of_ne same] using consistent.keeps other
  · intro other name owns
    exact consistent.owned other name (others other name owns)
  · intro first second name firstOwns secondOwns
    exact consistent.separate first second name (others _ _ firstOwns)
      (others _ _ secondOwns)

theorem keeps_start (payload : List UInt8) (directory : MiningWorkDirectory) :
    (PutPhase.start payload).Keeps backend directory ∧
      (PutPhase.start payload).temporary? = none := by
  unfold PutPhase.start
  cases checked : checkPayloadSize payload.length with
  | ok value => exact ⟨checkPayloadSize_eq_ok.mp checked, rfl⟩
  | error thrown =>
      refine ⟨?_, rfl⟩
      intro conflict
      subst conflict
      unfold checkPayloadSize at checked
      split_ifs at checked
      · exact absurd (Except.error.inj checked) (by decide)
      · cases checked

/-- An answer to one writer keeps what all writers rely on. -/
theorem Consistent.answer
    (consistent : Consistent backend drawn publication)
    {writer : Nat}
    {answer : SystemAnswer}
    {directory : MiningWorkDirectory}
    {phase : PutPhase}
    (advanced :
      PutPhase.Advanced backend publication.directory directory
        (publication.phases writer) phase answer)
    (fresh : ∀ name, answer = .named name → name ∉ drawn) :
    Consistent backend
      ((PutEvent.answer writer answer).drawn?.toList ++ drawn)
      { directory
        phases := Function.update publication.phases writer phase } := by
  obtain ⟨intact, keeps, frame, temporary⟩ := advanced
  have isTemporary :
      ∀ name ∈ (publication.phases writer).temporary?,
        isTemporaryName name = true :=
    fun name owns => (consistent.owned writer name owns).2
  -- a name of the writer is its old one or drawn just now, hence no other's
  have apart :
      ∀ other name, other ≠ writer → phase.temporary? = some name →
        (publication.phases other).temporary? ≠ some name := by
    intro other name different owns otherOwns
    rcases temporary name owns with before | ⟨isDrawn, _⟩
    · exact different (consistent.separate other writer name otherOwns before)
    · exact fresh name isDrawn (consistent.owned other name otherOwns).1
  refine ⟨intact, ?_, ?_, ?_⟩
  · intro other
    by_cases same : other = writer
    · subst same
      simpa only [Function.update_self] using keeps
    · simp only [Function.update_of_ne same]
      refine (consistent.keeps other).frame frame isTemporary ?_
      intro name owns otherOwns
      exact same (consistent.separate other writer name otherOwns owns)
  · intro other name owns
    by_cases same : other = writer
    · subst same
      simp only [Function.update_self] at owns
      rcases temporary name owns with before | ⟨rfl, isTemp⟩
      · obtain ⟨inDrawn, isTemp⟩ := consistent.owned other name before
        exact ⟨List.mem_append_right _ inDrawn, isTemp⟩
      · exact ⟨List.mem_append_left _ (by simp [PutEvent.drawn?]), isTemp⟩
    · simp only [Function.update_of_ne same] at owns
      obtain ⟨inDrawn, isTemp⟩ := consistent.owned other name owns
      exact ⟨List.mem_append_right _ inDrawn, isTemp⟩
  · intro first second name firstOwns secondOwns
    by_cases firstIs : first = writer
    · by_cases secondIs : second = writer
      · rw [firstIs, secondIs]
      · subst firstIs
        simp only [Function.update_self, Function.update_of_ne secondIs]
          at firstOwns secondOwns
        exact absurd secondOwns (apart second name secondIs firstOwns)
    · by_cases secondIs : second = writer
      · subst secondIs
        simp only [Function.update_self, Function.update_of_ne firstIs]
          at firstOwns secondOwns
        exact absurd firstOwns (apart first name firstIs secondOwns)
      · simp only [Function.update_of_ne firstIs,
          Function.update_of_ne secondIs] at firstOwns secondOwns
        exact consistent.separate first second name firstOwns secondOwns

/-- One event keeps the writers consistent and every record in place. -/
theorem Consistent.step
    (consistent : Consistent backend drawn publication)
    {event : PutEvent}
    (fresh : ∀ name ∈ event.drawn?, name ∉ drawn)
    (stepped : publication.step backend event = some next) :
    Consistent backend (event.drawn?.toList ++ drawn) next ∧
      KeepsRecords backend publication.directory next.directory := by
  cases event with
  | start writer payload =>
      simp only [WorkPublication.step] at stepped
      split_ifs at stepped
      cases stepped
      obtain ⟨keeps, ownsNothing⟩ :=
        @keeps_start backend payload publication.directory
      exact ⟨consistent.replace writer keeps ownsNothing, fun _ _ reads => reads⟩
  | crash writer =>
      cases stepped
      exact ⟨consistent.replace writer trivial rfl, fun _ _ reads => reads⟩
  | answer writer answer =>
      obtain ⟨⟨directory, phase⟩, advanced, rfl⟩ :=
        Option.map_eq_some_iff.mp stepped
      have isTemporary :
          ∀ name ∈ (publication.phases writer).temporary?,
            isTemporaryName name = true :=
        fun name owns => (consistent.owned writer name owns).2
      have spec :=
        PutPhase.advance_spec consistent.intact (consistent.keeps writer)
          isTemporary advanced
      refine ⟨consistent.answer spec ?_,
        keepsRecords_of_frame consistent.intact spec.intact spec.frame
          isTemporary⟩
      intro name isDrawn
      subst isDrawn
      exact fresh name rfl

/-- A run keeps the writers consistent and every record in place. -/
theorem Consistent.run
    {events : List PutEvent}
    (consistent : Consistent backend drawn publication)
    (fresh : (events.filterMap PutEvent.drawn?).Nodup)
    (unused : ∀ name ∈ events.filterMap PutEvent.drawn?, name ∉ drawn)
    (ran : publication.run backend events = some final) :
    (∃ drawnLater, Consistent backend drawnLater final) ∧
      KeepsRecords backend publication.directory final.directory := by
  induction events generalizing publication drawn with
  | nil =>
      cases ran
      exact ⟨⟨drawn, consistent⟩, fun _ _ reads => reads⟩
  | cons event rest inductionHypothesis =>
      unfold WorkPublication.run at ran
      rw [List.foldlM_cons] at ran
      obtain ⟨next, stepped, later⟩ := Option.bind_eq_some_iff.mp ran
      have here : ∀ name ∈ event.drawn?, name ∉ drawn := by
        intro name isDrawn
        exact unused name
          (List.mem_filterMap.mpr ⟨event, List.mem_cons_self .., isDrawn⟩)
      obtain ⟨nextConsistent, keptHere⟩ := consistent.step here stepped
      have freshLater :
          (rest.filterMap PutEvent.drawn?).Nodup ∧
            ∀ name ∈ rest.filterMap PutEvent.drawn?,
              name ∉ event.drawn?.toList ++ drawn := by
        cases isDrawn : event.drawn? with
        | none =>
            rw [List.filterMap_cons_none isDrawn] at fresh unused
            exact ⟨fresh, unused⟩
        | some first =>
            rw [List.filterMap_cons_some isDrawn] at fresh unused
            obtain ⟨firstNew, distinct⟩ := List.nodup_cons.mp fresh
            refine ⟨distinct, ?_⟩
            intro name member inDrawn
            rcases List.mem_cons.mp inDrawn with rfl | before
            · exact firstNew member
            · exact unused name (List.mem_cons_of_mem _ member) before
      obtain ⟨finalConsistent, keptLater⟩ :=
        inductionHypothesis nextConsistent freshLater.1 freshLater.2 later
      exact ⟨finalConsistent,
        fun id payload reads => keptLater id payload (keptHere id payload reads)⟩

/-- What a writer is at work on is the payload of its last `put`. -/
def OwnPuts (before : List PutEvent) (publication : WorkPublication) : Prop :=
  ∀ writer payload, (publication.phases writer).payload? = some payload →
    lastPut before writer = some payload

theorem lastPut_concat
    (before : List PutEvent)
    (event : PutEvent)
    (writer : Nat) :
    lastPut (before ++ [event]) writer =
      (event.startedBy? writer).or (lastPut before writer) := by
  unfold lastPut
  rw [List.filterMap_append]
  cases started : event.startedBy? writer with
  | none => simp [started]
  | some payload => simp [started]

/-- One event leaves each writer at work on its last payload. -/
theorem OwnPuts.step
    {before : List PutEvent}
    (own : OwnPuts before publication)
    {event : PutEvent}
    (stepped : publication.step backend event = some next) :
    OwnPuts (before ++ [event]) next := by
  intro writer payload holds
  rw [lastPut_concat]
  cases event with
  | start starter begun =>
      simp only [WorkPublication.step] at stepped
      split_ifs at stepped
      cases stepped
      by_cases same : starter = writer
      · subst same
        simp only [Function.update_self] at holds
        have begins : (PutPhase.start begun).payload? = some begun := by
          unfold PutPhase.start
          cases checkPayloadSize begun.length <;> rfl
        rw [begins] at holds
        cases holds
        simp [PutEvent.startedBy?]
      · simp only [Function.update_of_ne (Ne.symm same)] at holds
        simpa [PutEvent.startedBy?, same] using own writer payload holds
  | crash crashed =>
      cases stepped
      by_cases same : writer = crashed
      · subst same
        simp only [Function.update_self] at holds
        cases holds
      · simp only [Function.update_of_ne same] at holds
        exact own writer payload holds
  | answer answered answer =>
      obtain ⟨⟨directory, phase⟩, advanced, rfl⟩ :=
        Option.map_eq_some_iff.mp stepped
      by_cases same : writer = answered
      · subst same
        simp only [Function.update_self] at holds
        rw [PutPhase.payload?_advance advanced] at holds
        exact own writer payload holds
      · simp only [Function.update_of_ne same] at holds
        exact own writer payload holds

/-- A run leaves each writer at work on its last payload. -/
theorem OwnPuts.run
    {before events : List PutEvent}
    (own : OwnPuts before publication)
    (ran : publication.run backend events = some final) :
    OwnPuts (before ++ events) final := by
  induction events generalizing publication before with
  | nil =>
      cases ran
      rwa [List.append_nil]
  | cons event rest inductionHypothesis =>
      unfold WorkPublication.run at ran
      rw [List.foldlM_cons] at ran
      obtain ⟨next, stepped, later⟩ := Option.bind_eq_some_iff.mp ran
      rw [List.append_cons]
      exact inductionHypothesis (own.step stepped) later

/-- What puts leave behind in an archive, whoever made them. -/
structure PublicationLaws
    (backend : Backend)
    (start final : WorkPublication)
    (events : List PutEvent) :
    Prop where
  own : OwnPuts events final
  kept : KeepsRecords backend start.directory final.directory
  returned :
    ∀ writer payload, final.phases writer = .returned payload →
      final.directory.read backend (backend.cnFastHash payload) = .ok payload
  whole :
    ∀ file ∈ final.directory.files, isTemporaryName file.name = false →
      ∃ id payload,
        file.name = recordName id ∧
        final.directory.read backend id = .ok payload
  listed :
    ∀ maxRecords,
      (Intact.recordNames final.directory.files).length ≤ maxRecords →
        ∃ ids,
          final.directory.listIds backend maxRecords = .ok ids ∧
          ids.Pairwise (· ≤ ·) ∧ ids.Nodup ∧
          ∀ id, id ∈ ids ↔
            ∃ payload, final.directory.read backend id = .ok payload
  verified :
    final.directory.verifyAll backend =
      .ok (Intact.recordNames final.directory.files).length
  conflicts :
    ∀ writer payload, final.phases writer = .threw payload conflictingRecord →
      ∃ existing,
        existing ≠ payload ∧
        backend.cnFastHash existing = backend.cnFastHash payload ∧
        final.directory.read backend (backend.cnFastHash payload) =
          .ok existing

end WorkPublication

open WorkPublication in
/--
Puts that are interleaved, refused or cut off at any call, with names that the
system draws once, only ever add whole records.
-/
theorem puts_publishWholeRecords
    {backend : Backend}
    {start final : WorkPublication}
    {events : List PutEvent}
    (intact : start.directory.Intact backend)
    (unstarted : ∀ writer, start.phases writer = .idle)
    (fresh : (events.filterMap PutEvent.drawn?).Nodup)
    (ran : start.run backend events = some final) :
    PublicationLaws backend start final events := by
  have consistent : Consistent backend [] start := by
    refine ⟨intact, ?_, ?_, ?_⟩
    · intro writer
      rw [unstarted writer]
      trivial
    · intro writer name owns
      rw [unstarted writer] at owns
      cases owns
    · intro first second name owns
      rw [unstarted first] at owns
      cases owns
  obtain ⟨⟨drawn, settled⟩, kept⟩ :=
    consistent.run fresh (fun _ _ => List.not_mem_nil) ran
  have unstartedOwn : OwnPuts [] start := by
    intro writer payload holds
    rw [unstarted writer] at holds
    cases holds
  refine ⟨unstartedOwn.run ran, kept, ?_, ?_,
    fun _ within => settled.intact.listIds_eq within,
    settled.intact.verifyAll_eq, ?_⟩
  · intro writer payload isReturned
    have published := settled.keeps writer
    rw [isReturned] at published
    exact settled.intact.read_eq_ok.mpr ⟨rfl, published⟩
  · intro file member isRecord
    obtain ⟨id, payload, named, _, _, reads⟩ :=
      settled.intact.scan "" member isRecord
    exact ⟨id, payload, named, reads⟩
  · intro writer payload threw
    have reason := settled.keeps writer
    rw [threw] at reason
    obtain ⟨existing, differs, sameId, sized, found⟩ := reason rfl
    rw [sameId] at found
    exact ⟨existing, differs, sameId,
      settled.intact.read_eq_ok.mpr ⟨sameId, sized, found⟩⟩

/-- A payload of the least size. -/
def samplePut : List UInt8 :=
  List.replicate 121 7

/-- Another payload with the last bytes, and hence the identity, of the first. -/
def collidingPut : List UInt8 :=
  8 :: List.replicate 120 7

def samplePublication : WorkPublication where
  directory := { sidechainId := 1, files := [] }
  phases := fun _ => .idle

/--
Two writers put the same payload.  The first is cut off once it has linked the
record; the second finds the name taken and compares the record with its own.
-/
def samplePutEvents : List PutEvent :=
  [ .start 0 samplePut
  , .start 1 samplePut
  , .answer 0 .done
  , .answer 1 .done
  , .answer 0 .done
  , .answer 1 .done
  , .answer 0 (.named (temporaryStart ++ [0x61]))
  , .answer 1 (.named (temporaryStart ++ [0x62]))
  , .answer 0 (.wrote 100)
  , .answer 1 (.wrote 197)
  , .answer 0 (.wrote 97)
  , .answer 0 .done
  , .answer 0 .done
  , .crash 0
  , .answer 1 .done
  , .answer 1 .done
  , .answer 1 .done
  , .answer 1 .done
  , .answer 1 .done
  , .start 2 collidingPut
  , .answer 2 .done
  , .answer 2 .done
  , .answer 2 .done ]

theorem samplePutEvents_run :
    (samplePublication.run spellingBackend samplePutEvents).isSome = true := by
  decide +kernel

def samplePublished : WorkPublication :=
  (samplePublication.run spellingBackend samplePutEvents).get
    samplePutEvents_run

/--
The run leaves one record and the file of the writer that was cut off, and the
third writer reports the conflict.
-/
theorem samplePutEvents_publish :
    (samplePublished.phases 1 = .returned samplePut ∧
      samplePublished.phases 2 = .threw collidingPut conflictingRecord ∧
      samplePublished.directory.files.length = 2) ∧
      WorkPublication.PublicationLaws spellingBackend samplePublication
        samplePublished samplePutEvents :=
  ⟨by decide +kernel,
    puts_publishWholeRecords ⟨List.nodup_nil, by simp [samplePublication]⟩
      (fun _ => rfl) (by decide +kernel)
      (Option.some_get samplePutEvents_run).symm⟩

end ZanoP2pool
