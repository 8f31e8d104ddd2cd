import ZanoP2pool.Foundation.LittleEndian
import ZanoP2pool.MiningHeader
import ZanoP2pool.P2pMinerTxBinding
import ZanoP2pool.ShareChain

namespace ZanoP2pool

open Foundation

/-!
# Submission of block candidates

Templates are remembered under the mining header hash derived from them.  A
candidate is queued with the bytes of its template, and the worker submits these
bytes with the nonce of the candidate written into them.  The call of the daemon
is the only part outside; whether it throws is an argument of the step.
-/

/-- One lowercase hexadecimal digit. -/
def hexDigit (nibble : UInt8) : UInt8 :=
  if nibble < 10 then 0x30 + nibble else 0x61 + (nibble - 10)

def bytesToHex (bytes : List UInt8) : List UInt8 :=
  bytes.flatMap fun (byte : UInt8) =>
    [hexDigit (byte >>> 4), hexDigit (byte &&& 0x0f)]

/-- A block with the eight bytes after the first one replaced by a nonce. -/
def writeNonce (bytes : List UInt8) (nonce : UInt64) : List UInt8 :=
  bytes.take 1 ++ littleEndian 8 nonce.toNat ++ bytes.drop 9

def blockBlobWithNonce
    (blockBlobHex : List UInt8)
    (nonce : UInt64) :
    Except Exception (List UInt8) := do
  let bytes ← hexToBytes blockBlobHex
  if bytes.length < 9 then
    throw (.runtimeError "block template is too short to contain nonce")
  else
    return bytesToHex (writeNonce bytes nonce)

structure BlockCandidate where
  zanoHeight : UInt64
  miningHeaderHash : Hash256
  nonce : UInt64
  deriving Repr, DecidableEq

inductive BlockCandidateQueueStatus where
  | queued
  | staleTemplate
  | queueFull
  | stopped
  deriving Repr, DecidableEq

/-- A candidate with the bytes of its template at the time of admission. -/
structure QueuedCandidate where
  candidate : BlockCandidate
  blockBlobHex : List UInt8
  deriving Repr, DecidableEq

/-- The queue of a submitter; `inFlight` is the local variable of its worker. -/
structure BlockCandidateSubmitter where
  maxTemplates : Nat := 8
  maxQueue : Nat := 64
  running : Bool := false
  stopRequested : Bool := false
  templates : Std.ExtTreeMap Hash256 (List UInt8) := ∅
  templateOrder : List Hash256 := []
  queue : List QueuedCandidate := []
  inFlight : Option QueuedCandidate := none

namespace BlockCandidateSubmitter

def create
    (maxTemplates maxQueue : Nat) :
    Except Exception BlockCandidateSubmitter :=
  if maxTemplates = 0 ∨ maxQueue = 0 then
    throw (.invalidArgument "block submitter bounds must be nonzero")
  else
    return { maxTemplates, maxQueue }

/--
Drop the oldest templates but the current one.  Every round drops one or moves the
current one to the back, so twice the number of entries is enough.
-/
def evict
    (maxTemplates : Nat)
    (current : Hash256) :
    Nat → Std.ExtTreeMap Hash256 (List UInt8) → List Hash256 →
      Std.ExtTreeMap Hash256 (List UInt8) × List Hash256
  | 0, templates, order => (templates, order)
  | _ + 1, templates, [] => (templates, [])
  | budget + 1, templates, oldest :: order =>
      if templates.size > maxTemplates then
        if oldest = current then
          evict maxTemplates current budget templates (order ++ [oldest])
        else
          evict maxTemplates current budget (templates.erase oldest) order
      else
        (templates, oldest :: order)

def rememberTemplate
    (submitter : BlockCandidateSubmitter)
    (miningHeaderHash : Hash256)
    (blockBlobHex : List UInt8) :
    Except Exception BlockCandidateSubmitter := do
  let _ ← blockBlobWithNonce blockBlobHex 0
  let order :=
    if submitter.templates.contains miningHeaderHash then
      submitter.templateOrder
    else
      submitter.templateOrder ++ [miningHeaderHash]
  let kept := evict submitter.maxTemplates miningHeaderHash
    (2 * order.length)
    (submitter.templates.insert miningHeaderHash blockBlobHex) order
  return { submitter with templates := kept.1, templateOrder := kept.2 }

def enqueue
    (submitter : BlockCandidateSubmitter)
    (candidate : BlockCandidate) :
    BlockCandidateQueueStatus × BlockCandidateSubmitter :=
  if !submitter.running || submitter.stopRequested then
    (.stopped, submitter)
  else
    match submitter.templates[candidate.miningHeaderHash]? with
    | none => (.staleTemplate, submitter)
    | some blockBlobHex =>
        if submitter.queue.length ≥ submitter.maxQueue then
          (.queueFull, submitter)
        else
          (.queued, { submitter with
            queue := submitter.queue ++ [{ candidate, blockBlobHex }] })

/-- The worker takes the oldest candidate. -/
def takeNext (submitter : BlockCandidateSubmitter) : BlockCandidateSubmitter :=
  match submitter.inFlight, submitter.queue with
  | none, next :: rest =>
      if submitter.stopRequested then
        submitter
      else
        { submitter with inFlight := some next, queue := rest }
  | _, _ => submitter

/-- The bytes handed to the daemon for the candidate in flight. -/
def submittedBlob
    (submitter : BlockCandidateSubmitter) :
    Option (BlockCandidate × Except Exception (List UInt8)) :=
  submitter.inFlight.map fun taken =>
    (taken.candidate,
      blockBlobWithNonce taken.blockBlobHex taken.candidate.nonce)

/-- After a submission that did not throw, the header is retired. -/
def finish
    (submitter : BlockCandidateSubmitter)
    (threw : Bool) :
    BlockCandidateSubmitter :=
  match submitter.inFlight with
  | none => submitter
  | some taken =>
      if threw then
        { submitter with inFlight := none }
      else
        { submitter with
          inFlight := none
          queue := submitter.queue.filter fun sibling =>
            sibling.candidate.miningHeaderHash ≠
              taken.candidate.miningHeaderHash
          templates :=
            submitter.templates.erase taken.candidate.miningHeaderHash
          templateOrder := submitter.templateOrder.filter
            (· ≠ taken.candidate.miningHeaderHash) }

def start
    (submitter : BlockCandidateSubmitter) :
    Except Exception BlockCandidateSubmitter :=
  if submitter.running then
    throw (.runtimeError "block submitter is already running")
  else
    return { submitter with running := true, stopRequested := false }

/-- Stopping waits for the worker, then clears the queue. -/
def requestStop (submitter : BlockCandidateSubmitter) : BlockCandidateSubmitter :=
  if submitter.running then { submitter with stopRequested := true }
  else submitter

def finishStop (submitter : BlockCandidateSubmitter) : BlockCandidateSubmitter :=
  if submitter.running && submitter.stopRequested &&
      submitter.inFlight.isNone then
    { submitter with running := false, queue := [] }
  else
    submitter

end BlockCandidateSubmitter

/-- A step of a submitter, its worker or its callers. -/
inductive SubmitterOp where
  | rememberTemplate
      (miningHeaderHash : Hash256)
      (blockBlobHex : List UInt8)
  | enqueue (candidate : BlockCandidate)
  | takeNext
  | finish (threw : Bool)
  | start
  | requestStop
  | finishStop

/-- The submitter after a step; a step that throws changes nothing. -/
def SubmitterOp.run :
    SubmitterOp → BlockCandidateSubmitter → BlockCandidateSubmitter
  | rememberTemplate miningHeaderHash blockBlobHex, submitter =>
      match submitter.rememberTemplate miningHeaderHash blockBlobHex with
      | .ok next => next
      | .error _ => submitter
  | enqueue candidate, submitter => (submitter.enqueue candidate).2
  | takeNext, submitter => submitter.takeNext
  | finish threw, submitter => submitter.finish threw
  | start, submitter =>
      match submitter.start with
      | .ok next => next
      | .error _ => submitter
  | requestStop, submitter => submitter.requestStop
  | finishStop, submitter => submitter.finishStop

end ZanoP2pool
