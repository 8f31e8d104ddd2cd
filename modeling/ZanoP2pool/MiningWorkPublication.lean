import ZanoP2pool.Foundation.KeyedList
import ZanoP2pool.MiningWorkDirectory
import ZanoP2pool.SubmittedBlock
import ZanoP2pool.ZanoAddressEncoding

namespace ZanoP2pool

open Foundation

/-!
# Publication of mining work in the archive

A `put` writes a record to a temporary file and links it to its final name.  The
model runs any number of writers, interleaved at every system call, each of
which may be refused by the system or stop for good at any call.
-/

namespace MiningWorkDirectory

/-- The name of the record of an identity. -/
def recordName (id : Hash256) : List UInt8 :=
  bytesToHex (hashBytes id) ++ workExtension

def isTemporaryName (name : List UInt8) : Bool :=
  temporaryStart.isPrefixOf name

def checkPayloadSize (size : Nat) : Except Exception Unit :=
  if size < kP2pMiningContextFixedPayloadSize ∨ size > kP2pMaxPayloadSize then
    throw (.runtimeError "invalid mining-work archive payload length")
  else
    return ()

/-- The bytes that a `put` writes for a payload. -/
def recordBytes
    (backend : Backend)
    (sidechainId : SidechainId)
    (payload : List UInt8) :
    List UInt8 :=
  let record :=
    magic ++ hashBytes sidechainId ++ bigEndian 4 payload.length ++ payload
  record ++ hashBytes (backend.cnFastHash record)

def fileNamed
    (directory : MiningWorkDirectory)
    (name : List UInt8) :
    Option WorkFile :=
  atKey WorkFile.name directory.files name

/-- A new file of a name, with the content it is created or linked with. -/
def create
    (directory : MiningWorkDirectory)
    (name : List UInt8)
    (content : Option (List UInt8)) :
    MiningWorkDirectory :=
  { directory with files := directory.files ++ [{ name, content }] }

/-- Bytes written at the end of a file. -/
def appendTo
    (directory : MiningWorkDirectory)
    (name bytes : List UInt8) :
    MiningWorkDirectory :=
  { directory with
    files := directory.files.map fun file =>
      if file.name = name then
        { file with content := file.content.map (· ++ bytes) }
      else
        file }

def unlink
    (directory : MiningWorkDirectory)
    (name : List UInt8) :
    MiningWorkDirectory :=
  { directory with
    files := directory.files.filter fun file => file.name ≠ name }

/-- The number of records that `verify_all` reads, from those found so far. -/
def verifyAllFrom
    (backend : Backend)
    (directory : MiningWorkDirectory) :
    List WorkFile → Nat → Except Exception Nat
  | [], count => return count
  | file :: rest, count =>
      if isTemporaryName file.name then
        verifyAllFrom backend directory rest count
      else if (splitExtension file.name).2 ≠ workExtension then
        throw (.runtimeError "unexpected file in mining-work archive")
      else do
        let id ← idFromFilename "invalid mining-work archive filename" file.name
        let _ ← directory.read backend id
        verifyAllFrom backend directory rest (count + 1)

def verifyAll
    (backend : Backend)
    (directory : MiningWorkDirectory) :
    Except Exception Nat :=
  verifyAllFrom backend directory directory.files 0

end MiningWorkDirectory

/-- What the system answers to a call. -/
inductive SystemAnswer where
  | done
  | interrupted
  | wrote (count : Nat)
  | named (name : List UInt8)
  | failed
  deriving Repr, DecidableEq

/--
How far the `put` of a writer has come: the call whose answer it waits for, with
the temporary file it has created.
-/
inductive PutPhase where
  | idle
  | opening (payload : List UInt8)
  | looking (payload : List UInt8)
  | comparing (payload : List UInt8) (temporary : Option (List UInt8))
  | creating (payload : List UInt8)
  | writing (payload temporary rest : List UInt8)
  | flushing (payload temporary : List UInt8)
  | linking (payload temporary : List UInt8)
  | unlinking (payload temporary : List UInt8)
  | syncing (payload : List UInt8) (temporary : Option (List UInt8))
  | cleaning (payload temporary : List UInt8) (thrown : Exception)
  | returned (payload : List UInt8)
  | threw (payload : List UInt8) (thrown : Exception)
  deriving Repr, DecidableEq

namespace PutPhase

open MiningWorkDirectory

/-- The exception goes out after the temporary file has been cleaned up. -/
def fail
    (payload : List UInt8) :
    Option (List UInt8) → Exception → PutPhase
  | none, thrown => .threw payload thrown
  | some temporary, thrown => .cleaning payload temporary thrown

/-- Whether a writer can begin another `put`. -/
def isFree : PutPhase → Bool
  | .idle => true
  | .returned _ => true
  | .threw _ _ => true
  | _ => false

def start (payload : List UInt8) : PutPhase :=
  match checkPayloadSize payload.length with
  | .error thrown => .threw payload thrown
  | .ok _ => .opening payload

/-- What a `put` makes of the record that already has its name. -/
def compare
    (backend : Backend)
    (directory : MiningWorkDirectory)
    (payload : List UInt8)
    (temporary : Option (List UInt8)) :
    PutPhase :=
  match directory.read backend (backend.cnFastHash payload) with
  | .error thrown => fail payload temporary thrown
  | .ok existing =>
      if existing ≠ payload then
        fail payload temporary
          (.runtimeError "conflicting mining-work archive record")
      else
        match temporary with
        | none => .syncing payload none
        | some name => .unlinking payload name

/--
The directory and the phase after an answer; none where the system cannot give
that answer.
-/
def advance
    (backend : Backend)
    (directory : MiningWorkDirectory) :
    PutPhase → SystemAnswer → Option (MiningWorkDirectory × PutPhase)
  | .opening payload, .done => some (directory, .looking payload)
  | .opening payload, .failed =>
      some (directory,
        .threw payload (.runtimeError "open mining-work archive directory"))
  | .looking payload, .done =>
      some (directory,
        if (directory.fileNamed
            (recordName (backend.cnFastHash payload))).isSome then
          .comparing payload none
        else
          .creating payload)
  | .looking payload, .failed =>
      some (directory,
        .threw payload (.runtimeError "cannot get file status"))
  | .comparing payload temporary, .done =>
      some (directory, compare backend directory payload temporary)
  | .comparing payload temporary, .failed =>
      some (directory,
        fail payload temporary
          (.runtimeError "failed to read mining-work archive record"))
  | .creating payload, .named name =>
      -- the name is made exclusively, under the prefix of temporary files
      if isTemporaryName name ∧ directory.fileNamed name = none then
        some (directory.create name (some []),
          .writing payload name
            (recordBytes backend directory.sidechainId payload))
      else
        none
  | .creating payload, .failed =>
      some (directory,
        .threw payload (.runtimeError "create mining-work archive record"))
  | .writing payload temporary rest, .wrote count =>
      if 0 < count ∧ count ≤ rest.length then
        some (directory.appendTo temporary (rest.take count),
          if count = rest.length then
            .flushing payload temporary
          else
            .writing payload temporary (rest.drop count))
      else
        none
  | .writing payload temporary rest, .interrupted =>
      some (directory, .writing payload temporary rest)
  | .writing payload temporary _, .failed =>
      some (directory,
        .cleaning payload temporary (.runtimeError "write mining-work archive"))
  | .flushing payload temporary, .done =>
      some (directory, .linking payload temporary)
  | .flushing payload temporary, .interrupted =>
      some (directory, .flushing payload temporary)
  | .flushing payload temporary, .failed =>
      some (directory,
        .cleaning payload temporary (.runtimeError "fsync mining-work archive"))
  | .linking payload temporary, .done =>
      let destination := recordName (backend.cnFastHash payload)
      if (directory.fileNamed destination).isSome then
        some (directory, .comparing payload (some temporary))
      else
        match directory.fileNamed temporary with
        | none => none
        | some file =>
            some (directory.create destination file.content,
              .unlinking payload temporary)
  | .linking payload temporary, .failed =>
      some (directory,
        .cleaning payload temporary
          (.runtimeError "publish mining-work archive record"))
  | .unlinking payload temporary, .done =>
      some (directory.unlink temporary, .syncing payload (some temporary))
  | .unlinking payload temporary, .failed =>
      some (directory,
        .cleaning payload temporary
          (.runtimeError "remove mining-work archive temporary"))
  | .syncing payload _, .done => some (directory, .returned payload)
  | .syncing payload temporary, .interrupted =>
      some (directory, .syncing payload temporary)
  | .syncing payload temporary, .failed =>
      some (directory,
        fail payload temporary (.runtimeError "fsync mining-work archive"))
  | .cleaning payload temporary thrown, .done =>
      some (directory.unlink temporary, .threw payload thrown)
  | .cleaning payload _ thrown, .failed =>
      some (directory, .threw payload thrown)
  | _, _ => none

end PutPhase

/-- An archive and the writers at work in it. -/
structure WorkPublication where
  directory : MiningWorkDirectory
  phases : Nat → PutPhase

inductive PutEvent where
  | start (writer : Nat) (payload : List UInt8)
  | answer (writer : Nat) (answer : SystemAnswer)
  | crash (writer : Nat)
  deriving Repr, DecidableEq

namespace WorkPublication

/-- One event; none where it cannot happen. -/
def step
    (backend : Backend)
    (publication : WorkPublication) :
    PutEvent → Option WorkPublication
  | .start writer payload =>
      if (publication.phases writer).isFree then
        some { publication with
          phases := Function.update publication.phases writer
            (.start payload) }
      else
        none
  | .answer writer answer =>
      ((publication.phases writer).advance backend publication.directory
          answer).map fun (directory, phase) =>
        { directory
          phases := Function.update publication.phases writer phase }
  | .crash writer =>
      some { publication with
        phases := Function.update publication.phases writer .idle }

def run
    (backend : Backend)
    (events : List PutEvent)
    (publication : WorkPublication) :
    Option WorkPublication :=
  events.foldlM (step backend) publication

end WorkPublication

/-- The name that the system draws for a temporary file in an event. -/
def PutEvent.drawn? : PutEvent → Option (List UInt8)
  | .answer _ (.named name) => some name
  | _ => none

/-- The payload with which a writer begins a `put` in an event. -/
def PutEvent.startedBy? (writer : Nat) : PutEvent → Option (List UInt8)
  | .start starter payload => if starter = writer then some payload else none
  | _ => none

/-- The payload of the last `put` that a writer began. -/
def lastPut (events : List PutEvent) (writer : Nat) : Option (List UInt8) :=
  (events.filterMap (PutEvent.startedBy? writer)).getLast?

end ZanoP2pool
