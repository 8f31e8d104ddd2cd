import ZanoP2pool.BlockSubmitter
import ZanoP2pool.Foundation.Effect
import ZanoP2pool.Foundation.TreeMap

namespace ZanoP2pool

open Foundation

/-!
# Runs of the block submitter

Every interleaving of the callers with the worker is a list of steps.  What can be
seen of a run is its history: templates that were remembered, candidates that were
accepted with the template of that moment, and calls of the daemon.
-/

/-- What an observer of a submitter sees. -/
inductive SubmitterEvent where
  | remembered
      (miningHeaderHash : Hash256)
      (blockBlobHex : List UInt8)
  | accepted (queued : QueuedCandidate)
  | submitted
      (queued : QueuedCandidate)
      (blob : List UInt8)
      (threw : Bool)
  deriving Repr, DecidableEq

namespace SubmitterEvent

def accepted? : SubmitterEvent → Option QueuedCandidate
  | .accepted queued => some queued
  | _ => none

def submitted? : SubmitterEvent → Option QueuedCandidate
  | .submitted queued _ _ => some queued
  | _ => none

/-- The template an event remembers for a header. -/
def template?
    (miningHeaderHash : Hash256) :
    SubmitterEvent → Option (List UInt8)
  | .remembered header blockBlobHex =>
      if header = miningHeaderHash then some blockBlobHex else none
  | _ => none

end SubmitterEvent

/-- The event of a step, if it has one. -/
def SubmitterOp.event
    (op : SubmitterOp)
    (submitter : BlockCandidateSubmitter) :
    Option SubmitterEvent :=
  match op with
  | .rememberTemplate miningHeaderHash blockBlobHex =>
      match submitter.rememberTemplate miningHeaderHash blockBlobHex with
      | .ok _ => some (.remembered miningHeaderHash blockBlobHex)
      | .error _ => none
  | .enqueue candidate =>
      if (submitter.enqueue candidate).1 = .queued then
        (submitter.templates[candidate.miningHeaderHash]?).map
          fun blockBlobHex => .accepted { candidate, blockBlobHex }
      else
        none
  | .finish threw =>
      match submitter.inFlight with
      | none => none
      | some queued =>
          match blockBlobWithNonce queued.blockBlobHex
              queued.candidate.nonce with
          | .ok blob => some (.submitted queued blob threw)
          | .error _ => none
  | _ => none

/-- The submitter after a run. -/
def runSubmitter
    (ops : List SubmitterOp)
    (submitter : BlockCandidateSubmitter) :
    BlockCandidateSubmitter :=
  ops.foldl (fun reached op => op.run reached) submitter

/-- The events of a run, in order. -/
def submitterHistory :
    List SubmitterOp → BlockCandidateSubmitter → List SubmitterEvent
  | [], _ => []
  | op :: rest, submitter =>
      (op.event submitter).toList ++
        submitterHistory rest (op.run submitter)

/-- The template last remembered for a header. -/
def lastTemplate
    (history : List SubmitterEvent)
    (miningHeaderHash : Hash256) :
    Option (List UInt8) :=
  (history.filterMap (SubmitterEvent.template? miningHeaderHash)).getLast?

namespace BlockCandidateSubmitter

/-- The order lists the keys of the templates, each once, within the bounds. -/
structure Bounded (submitter : BlockCandidateSubmitter) : Prop where
  usable : submitter.maxTemplates ≠ 0
  distinct : submitter.templateOrder.Nodup
  listed :
    ∀ header : Hash256,
      header ∈ submitter.templateOrder ↔
        submitter.templates.contains header = true
  templates : submitter.templates.size ≤ submitter.maxTemplates
  queue : submitter.queue.length ≤ submitter.maxQueue

section Eviction

variable {templates : Std.ExtTreeMap Hash256 (List UInt8)}
variable {order : List Hash256}

/-- A list of exactly the keys, each once, is as long as the map. -/
theorem length_of_lists_keys
    (distinct : order.Nodup)
    (listed :
      ∀ header : Hash256,
        header ∈ order ↔ templates.contains header = true) :
    order.length = templates.size := by
  have permuted : order.Perm templates.keys := by
    rw [List.perm_ext_iff_of_nodup distinct Std.ExtTreeMap.nodup_keys]
    intro header
    rw [listed, Std.ExtTreeMap.mem_keys, Std.ExtTreeMap.mem_iff_contains]
  rw [permuted.length_eq, Std.ExtTreeMap.length_keys]

/--
Eviction keeps the order in step with the map, never drops the current header and
ends within the bound: two rounds drop a template, one if the current header is
not in front.
-/
theorem evict_bounded
    {maxTemplates : Nat}
    (usable : maxTemplates ≠ 0)
    {current : Hash256}
    {budget : Nat}
    (enough :
      2 * (templates.size - maxTemplates) ≤
        budget + if order.head? = some current then 0 else 1)
    (distinct : order.Nodup)
    (listed :
      ∀ header : Hash256,
        header ∈ order ↔ templates.contains header = true) :
    let kept := evict maxTemplates current budget templates order
    kept.2.Nodup ∧
      (∀ header : Hash256,
        header ∈ kept.2 ↔ kept.1.contains header = true) ∧
      kept.1.size ≤ maxTemplates ∧
      (∀ (header : Hash256) (blob : List UInt8),
        kept.1[header]? = some blob → templates[header]? = some blob) := by
  induction budget generalizing templates order with
  | zero =>
      have small : templates.size ≤ maxTemplates := by
        split_ifs at enough <;> omega
      exact ⟨distinct, listed, small, fun _ _ found => found⟩
  | succ budget inductionHypothesis =>
      have length := length_of_lists_keys distinct listed
      cases order with
      | nil =>
          have small : templates.size ≤ maxTemplates := by
            rw [← length]
            exact Nat.zero_le _
          exact ⟨distinct, listed, small, fun _ _ found => found⟩
      | cons oldest order =>
          unfold evict
          by_cases large : templates.size > maxTemplates
          swap
          · rw [if_neg large]
            exact ⟨distinct, listed, not_lt.mp large, fun _ _ found => found⟩
          rw [if_pos large]
          rw [List.length_cons] at length
          obtain ⟨notLater, distinctRest⟩ := List.nodup_cons.mp distinct
          by_cases isCurrent : oldest = current
          · subst isCurrent
            rw [if_pos rfl]
            refine inductionHypothesis ?_ ?_ ?_
            · -- another header comes to the front
              have front :
                  (order ++ [oldest]).head? ≠ some oldest := by
                cases order with
                | nil =>
                    rw [List.length_nil] at length
                    omega
                | cons next rest =>
                    rintro same
                    cases same
                    exact notLater List.mem_cons_self
              rw [if_neg front]
              simp only [List.head?_cons, if_true] at enough
              omega
            · exact (List.perm_append_singleton oldest order).nodup_iff.mpr
                distinct
            · intro header
              rw [(List.perm_append_singleton oldest order).mem_iff]
              exact listed header
          · rw [if_neg isCurrent]
            have present : templates.contains oldest = true :=
              (listed oldest).mp List.mem_cons_self
            have smaller :
                (templates.erase oldest).size = templates.size - 1 := by
              rw [Std.ExtTreeMap.size_erase, if_pos present]
            have notFront :
                ¬ (oldest :: order).head? = some current := by
              rintro same
              cases same
              exact isCurrent rfl
            rw [if_neg notFront] at enough
            obtain ⟨keptDistinct, keptListed, keptSize, keptFound⟩ :=
              @inductionHypothesis (templates.erase oldest) order
                (by rw [smaller]; split_ifs <;> omega) distinctRest (by
                  intro header
                  rw [Std.ExtTreeMap.contains_erase, Bool.and_eq_true,
                    ← listed header, List.mem_cons]
                  by_cases same : header = oldest
                  · simp [same, notLater]
                  · simp [same, Ne.symm same])
            exact ⟨keptDistinct, keptListed, keptSize,
              fun header blob found =>
                (getElem?_erase_iff.mp (keptFound header blob found)).2⟩

end Eviction

/-- A template that a nonce can be written into. -/
def Patchable (blockBlobHex : List UInt8) : Prop :=
  ∀ nonce, ∃ blob, blockBlobWithNonce blockBlobHex nonce = .ok blob

/-- The check of a template does not depend on the nonce. -/
theorem patchable_of_ok
    {blockBlobHex blob : List UInt8}
    {nonce : UInt64}
    (written : blockBlobWithNonce blockBlobHex nonce = .ok blob) :
    Patchable blockBlobHex := by
  intro other
  unfold blockBlobWithNonce at written ⊢
  obtain ⟨bytes, read, patched⟩ := except_bind_eq_ok.mp written
  rw [read]
  simp only [bind, Except.bind]
  by_cases short : bytes.length < 9
  · rw [if_pos short] at patched
    cases patched
  · rw [if_neg short]
    exact ⟨_, rfl⟩

/-- The header was submitted normally and not remembered since. -/
def Retired (history : List SubmitterEvent) (header : Hash256) : Prop :=
  ∃ before queued blob after,
    history = before ++ .submitted queued blob false :: after ∧
    queued.candidate.miningHeaderHash = header ∧
    ∀ template, .remembered header template ∉ after

/-- A retired header stays retired until it is remembered. -/
theorem retired_append
    {history : List SubmitterEvent}
    {event : SubmitterEvent}
    {header : Hash256}
    (retired : Retired (history ++ [event]) header) :
    (Retired history header ∧
      ∀ template, event ≠ .remembered header template) ∨
      ∃ queued blob,
        event = .submitted queued blob false ∧
          queued.candidate.miningHeaderHash = header := by
  obtain ⟨before, queued, blob, after, split, same, fresh⟩ := retired
  rcases List.eq_nil_or_concat after with rfl | ⟨rest, last, rfl⟩
  · obtain ⟨_, isLast⟩ := List.append_inj' split rfl
    exact .inr ⟨queued, blob, List.singleton_inj.mp isLast, same⟩
  · rw [List.concat_eq_append, ← List.cons_append, ← List.append_assoc]
      at split
    obtain ⟨isPrefix, isLast⟩ := List.append_inj' split rfl
    obtain rfl := List.singleton_inj.mp isLast
    left
    refine ⟨⟨before, queued, blob, rest, isPrefix, same, ?_⟩, ?_⟩
    · intro template member
      exact fresh template (by simp [member])
    · rintro template rfl
      exact fresh template (by simp)

/-- What a history says about the submitter it led to. -/
structure Recorded
    (history : List SubmitterEvent)
    (submitter : BlockCandidateSubmitter) :
    Prop where
  bounded : submitter.Bounded
  remembered :
    ∀ ⦃header : Hash256⦄ ⦃blob : List UInt8⦄,
      submitter.templates[header]? = some blob →
        lastTemplate history header = some blob ∧ Patchable blob
  patchable :
    ∀ queued ∈ submitter.inFlight.toList ++ submitter.queue,
      Patchable queued.blockBlobHex
  ordered :
    (history.filterMap SubmitterEvent.submitted? ++
      (submitter.inFlight.toList ++ submitter.queue)).Sublist
        (history.filterMap SubmitterEvent.accepted?)
  retired :
    ∀ header, Retired history header →
      submitter.templates[header]? = none ∧
        ∀ queued ∈ submitter.inFlight.toList ++ submitter.queue,
          queued.candidate.miningHeaderHash ≠ header

/-- A step without an event that keeps templates and drops candidates. -/
theorem Recorded.quiet
    {history : List SubmitterEvent}
    {submitter next : BlockCandidateSubmitter}
    (recorded : Recorded history submitter)
    (bounded : next.Bounded)
    (templates : next.templates = submitter.templates)
    (candidates :
      (next.inFlight.toList ++ next.queue).Sublist
        (submitter.inFlight.toList ++ submitter.queue)) :
    Recorded history next where
  bounded := bounded
  remembered := by
    rw [templates]
    exact recorded.remembered
  patchable := fun queued member =>
    recorded.patchable queued (candidates.subset member)
  ordered := ((List.Sublist.refl _).append candidates).trans recorded.ordered
  retired := by
    intro header isRetired
    obtain ⟨absent, others⟩ := recorded.retired header isRetired
    rw [templates]
    exact ⟨absent, fun queued member =>
      others queued (candidates.subset member)⟩

theorem filterMap_append_none
    {history : List SubmitterEvent}
    {event : SubmitterEvent}
    {select : SubmitterEvent → Option QueuedCandidate}
    (hidden : select event = none) :
    (history ++ [event]).filterMap select = history.filterMap select := by
  rw [List.filterMap_append, List.filterMap_cons_none hidden,
    List.filterMap_nil, List.append_nil]

theorem filterMap_append_some
    {history : List SubmitterEvent}
    {event : SubmitterEvent}
    {select : SubmitterEvent → Option QueuedCandidate}
    {queued : QueuedCandidate}
    (shown : select event = some queued) :
    (history ++ [event]).filterMap select =
      history.filterMap select ++ [queued] := by
  rw [List.filterMap_append, List.filterMap_cons_some shown,
    List.filterMap_nil]

theorem lastTemplate_append
    (history : List SubmitterEvent)
    (event : SubmitterEvent)
    (header : Hash256) :
    lastTemplate (history ++ [event]) header =
      (event.template? header).or (lastTemplate history header) := by
  unfold lastTemplate
  rw [List.filterMap_append]
  cases found : event.template? header with
  | none => simp [found]
  | some blob => simp [found]

/-- Remembering a template keeps the bounds and only adds that template. -/
theorem rememberTemplate_spec
    {submitter next : BlockCandidateSubmitter}
    {header : Hash256}
    {blob : List UInt8}
    (bounded : submitter.Bounded)
    (ran : submitter.rememberTemplate header blob = .ok next) :
    next.Bounded ∧ next.inFlight = submitter.inFlight ∧
      next.queue = submitter.queue ∧ Patchable blob ∧
      ∀ ⦃other : Hash256⦄ ⦃found : List UInt8⦄,
        next.templates[other]? = some found →
          (other = header ∧ found = blob) ∨
            (other ≠ header ∧ submitter.templates[other]? = some found) := by
  unfold rememberTemplate at ran
  obtain ⟨patched, written, finished⟩ := except_bind_eq_ok.mp ran
  generalize ordered :
    (if submitter.templates.contains header then submitter.templateOrder
      else submitter.templateOrder ++ [header]) = order at finished
  have distinct : order.Nodup := by
    subst ordered
    split_ifs with known
    · exact bounded.distinct
    · rw [List.nodup_append]
      refine ⟨bounded.distinct, List.nodup_singleton _, ?_⟩
      rintro other inOrder _ last rfl
      obtain rfl := List.mem_singleton.mp last
      exact known ((bounded.listed _).mp inOrder)
  have listed :
      ∀ other : Hash256,
        other ∈ order ↔
          (submitter.templates.insert header blob).contains other = true := by
    intro other
    subst ordered
    rw [Std.ExtTreeMap.contains_insert, Bool.or_eq_true,
      ← bounded.listed other]
    split_ifs with known
    · by_cases same : other = header
      · subst same
        simp [(bounded.listed other).mpr known]
      · simp [Ne.symm same]
    · rw [List.mem_append, List.mem_singleton, or_comm, beq_iff_eq,
        Std.LawfulEqCmp.compare_eq_iff_eq]
      exact or_congr_left eq_comm
  have length := length_of_lists_keys distinct listed
  have evicted :=
    @evict_bounded (submitter.templates.insert header blob) order
      submitter.maxTemplates bounded.usable header (2 * order.length)
      (by split_ifs <;> omega) distinct listed
  obtain ⟨keptDistinct, keptListed, keptSize, keptFound⟩ := evicted
  cases finished
  refine ⟨⟨bounded.usable, keptDistinct, keptListed, keptSize,
    bounded.queue⟩, rfl, rfl, patchable_of_ok written, ?_⟩
  intro other found present
  exact getElem?_insert_iff.mp (keptFound other found present)

/-- A candidate is accepted with the template of its header. -/
theorem enqueue_spec
    {submitter : BlockCandidateSubmitter}
    {candidate : BlockCandidate} :
    ((submitter.enqueue candidate).1 ≠ .queued ∧
      (submitter.enqueue candidate).2 = submitter) ∨
    ∃ blockBlobHex,
      (submitter.enqueue candidate).1 = .queued ∧
      submitter.templates[candidate.miningHeaderHash]? = some blockBlobHex ∧
      submitter.queue.length < submitter.maxQueue ∧
      (submitter.enqueue candidate).2 =
        { submitter with
          queue := submitter.queue ++ [{ candidate, blockBlobHex }] } := by
  unfold enqueue
  by_cases stopped : (!submitter.running || submitter.stopRequested) = true
  · rw [if_pos stopped]
    exact .inl ⟨by simp, rfl⟩
  rw [if_neg stopped]
  cases found : submitter.templates[candidate.miningHeaderHash]? with
  | none => exact .inl ⟨by simp, rfl⟩
  | some blockBlobHex =>
      by_cases full : submitter.queue.length ≥ submitter.maxQueue
      · simp only [if_pos full]
        exact .inl ⟨by simp, trivial⟩
      · simp only [if_neg full]
        exact .inr ⟨blockBlobHex, trivial, rfl, by omega, rfl⟩

/-- A header retired after an event that retires none was retired before it. -/
theorem retired_before
    {history : List SubmitterEvent}
    {event : SubmitterEvent}
    {header : Hash256}
    (retiresNone : ∀ queued blob, event ≠ .submitted queued blob false)
    (retired : Retired (history ++ [event]) header) :
    Retired history header ∧
      ∀ template, event ≠ .remembered header template := by
  rcases retired_append retired with before | ⟨queued, blob, isEvent, _⟩
  · exact before
  · exact absurd isEvent (retiresNone queued blob)

/-- The templates that were remembered still are after another event. -/
theorem Recorded.remembered_append
    {history : List SubmitterEvent}
    {submitter : BlockCandidateSubmitter}
    (recorded : Recorded history submitter)
    {event : SubmitterEvent}
    {header : Hash256}
    {blob : List UInt8}
    (remembersNone : event.template? header = none)
    (found : submitter.templates[header]? = some blob) :
    lastTemplate (history ++ [event]) header = some blob ∧
      Patchable blob := by
  rw [lastTemplate_append, remembersNone, Option.none_or]
  exact recorded.remembered found

section Operations

variable {history : List SubmitterEvent}
variable {submitter next : BlockCandidateSubmitter}

theorem Recorded.rememberTemplate
    {header : Hash256}
    {blob : List UInt8}
    (recorded : Recorded history submitter)
    (ran : submitter.rememberTemplate header blob = .ok next) :
    Recorded (history ++ [.remembered header blob]) next := by
  obtain ⟨bounded, inFlight, queue, patchable, templates⟩ :=
    rememberTemplate_spec recorded.bounded ran
  constructor
  case bounded => exact bounded
  case remembered =>
    intro other found present
    rcases templates present with ⟨rfl, rfl⟩ | ⟨different, before⟩
    · rw [lastTemplate_append]
      exact ⟨by simp [SubmitterEvent.template?], patchable⟩
    · exact recorded.remembered_append
        (by simp [SubmitterEvent.template?, Ne.symm different]) before
  case patchable =>
    rw [inFlight, queue]
    exact recorded.patchable
  case ordered =>
    rw [inFlight, queue, filterMap_append_none rfl,
      filterMap_append_none rfl]
    exact recorded.ordered
  case retired =>
    intro other isRetired
    obtain ⟨before, notNow⟩ := retired_before (by simp) isRetired
    have different : other ≠ header := by
      rintro rfl
      exact notNow blob rfl
    obtain ⟨absent, others⟩ := recorded.retired other before
    rw [inFlight, queue]
    refine ⟨?_, others⟩
    rw [Option.eq_none_iff_forall_ne_some]
    intro found present
    rcases templates present with ⟨same, _⟩ | ⟨_, old⟩
    · exact different same
    · rw [absent] at old
      cases old

/-- A candidate joins the queue with the template of its header. -/
theorem Recorded.enqueue
    {candidate : BlockCandidate}
    {blob : List UInt8}
    (recorded : Recorded history submitter)
    (found : submitter.templates[candidate.miningHeaderHash]? = some blob)
    (room : submitter.queue.length < submitter.maxQueue) :
    Recorded
      (history ++ [.accepted { candidate, blockBlobHex := blob }])
      { submitter with
        queue :=
          submitter.queue ++ [{ candidate, blockBlobHex := blob }] } := by
  have bounded := recorded.bounded
  constructor
  case bounded =>
    refine ⟨bounded.usable, bounded.distinct, bounded.listed,
      bounded.templates, ?_⟩
    rw [List.length_append, List.length_singleton]
    exact room
  case remembered =>
    intro other template present
    exact recorded.remembered_append rfl present
  case patchable =>
    intro waiting member
    rw [← List.append_assoc] at member
    rcases List.mem_append.mp member with old | new
    · exact recorded.patchable waiting old
    · rw [List.mem_singleton.mp new]
      exact (recorded.remembered found).2
  case ordered =>
    rw [filterMap_append_none rfl, filterMap_append_some rfl,
      ← List.append_assoc submitter.inFlight.toList, ← List.append_assoc]
    exact recorded.ordered.append (List.Sublist.refl _)
  case retired =>
    intro header isRetired
    obtain ⟨before, _⟩ := retired_before (by simp) isRetired
    obtain ⟨absent, others⟩ := recorded.retired header before
    refine ⟨absent, ?_⟩
    intro waiting member
    rw [← List.append_assoc] at member
    rcases List.mem_append.mp member with old | new
    · exact others waiting old
    · rw [List.mem_singleton.mp new]
      rintro rfl
      rw [found] at absent
      cases absent

theorem Recorded.takeNext
    (recorded : Recorded history submitter) :
    Recorded history submitter.takeNext := by
  have bounded := recorded.bounded
  unfold BlockCandidateSubmitter.takeNext
  cases inFlight : submitter.inFlight with
  | some taken => exact recorded
  | none =>
      cases queue : submitter.queue with
      | nil => exact recorded
      | cons first rest =>
          simp only
          split_ifs
          · exact recorded
          · refine recorded.quiet ⟨bounded.usable, bounded.distinct,
              bounded.listed, bounded.templates, ?_⟩ rfl ?_
            · have before := bounded.queue
              rw [queue, List.length_cons] at before
              exact Nat.le_of_succ_le before
            · rw [inFlight, queue]
              exact List.Sublist.refl _

/-- After a call that threw the candidate is gone and its siblings stay. -/
theorem Recorded.finish_threw
    {taken : QueuedCandidate}
    {blob : List UInt8}
    (recorded : Recorded history submitter)
    (inFlight : submitter.inFlight = some taken) :
    Recorded (history ++ [.submitted taken blob true])
      (submitter.finish true) := by
  have bounded := recorded.bounded
  have ordered := recorded.ordered
  have patchable := recorded.patchable
  have retired := recorded.retired
  rw [inFlight] at ordered patchable retired
  simp only [finish, inFlight, if_true]
  constructor
  case bounded =>
    exact ⟨bounded.usable, bounded.distinct, bounded.listed,
      bounded.templates, bounded.queue⟩
  case remembered =>
    intro other template present
    exact recorded.remembered_append rfl present
  case patchable =>
    intro waiting member
    exact patchable waiting (List.mem_cons_of_mem _ member)
  case ordered =>
    rw [filterMap_append_some rfl, filterMap_append_none rfl,
      List.append_assoc]
    exact ordered
  case retired =>
    intro header isRetired
    obtain ⟨before, _⟩ := retired_before (by simp) isRetired
    obtain ⟨absent, others⟩ := retired header before
    exact ⟨absent, fun waiting member =>
      others waiting (List.mem_cons_of_mem _ member)⟩

/-- After a call that returned the header is retired with all its candidates. -/
theorem Recorded.finish_returned
    {taken : QueuedCandidate}
    {blob : List UInt8}
    (recorded : Recorded history submitter)
    (inFlight : submitter.inFlight = some taken) :
    Recorded (history ++ [.submitted taken blob false])
      (submitter.finish false) := by
  have bounded := recorded.bounded
  have ordered := recorded.ordered
  have patchable := recorded.patchable
  have retired := recorded.retired
  rw [inFlight] at ordered patchable retired
  simp only [finish, inFlight]
  rw [if_neg (by simp)]
  constructor
  case bounded =>
    refine ⟨bounded.usable, bounded.distinct.filter _, ?_, ?_, ?_⟩
    · intro header
      rw [List.mem_filter, bounded.listed header,
        Std.ExtTreeMap.contains_erase, Bool.and_eq_true]
      by_cases same : header = taken.candidate.miningHeaderHash
      · simp [same]
      · simp [same, Ne.symm same]
    · have smaller :=
        @Std.ExtTreeMap.size_erase_le _ _ _ submitter.templates _
          taken.candidate.miningHeaderHash
      exact le_trans smaller bounded.templates
    · exact le_trans (List.length_filter_le _ _) bounded.queue
  case remembered =>
    intro other template present
    exact recorded.remembered_append rfl (getElem?_erase_iff.mp present).2
  case patchable =>
    intro waiting member
    exact patchable waiting (List.mem_cons_of_mem _
      (List.mem_filter.mp member).1)
  case ordered =>
    rw [filterMap_append_some rfl, filterMap_append_none rfl,
      List.append_assoc]
    refine List.Sublist.trans ?_ ordered
    refine (List.Sublist.refl _).append ?_
    exact (List.Sublist.refl [taken]).append List.filter_sublist
  case retired =>
    intro header isRetired
    by_cases same : header = taken.candidate.miningHeaderHash
    · refine ⟨by simp [same], ?_⟩
      intro waiting member
      have kept := (List.mem_filter.mp member).2
      rw [same]
      exact of_decide_eq_true kept
    · rcases retired_append isRetired with
        ⟨before, _⟩ | ⟨queued, patched, isSubmitted, isHeader⟩
      · obtain ⟨absent, others⟩ := retired header before
        refine ⟨?_, fun waiting member => others waiting
          (List.mem_cons_of_mem _ (List.mem_filter.mp member).1)⟩
        rw [Option.eq_none_iff_forall_ne_some] at absent ⊢
        intro found present
        exact absent found (getElem?_erase_iff.mp present).2
      · cases isSubmitted
        exact absurd isHeader.symm same

end Operations

/-- One step records its event. -/
theorem Recorded.step
    {history : List SubmitterEvent}
    {submitter : BlockCandidateSubmitter}
    (recorded : Recorded history submitter)
    (op : SubmitterOp) :
    Recorded (history ++ (op.event submitter).toList)
      (op.run submitter) := by
  have bounded := recorded.bounded
  cases op with
  | rememberTemplate header blob =>
      simp only [SubmitterOp.event, SubmitterOp.run]
      cases ran : submitter.rememberTemplate header blob with
      | error thrown =>
          simp only [Option.toList_none, List.append_nil]
          exact recorded
      | ok next => exact recorded.rememberTemplate ran
  | enqueue candidate =>
      rcases @enqueue_spec submitter candidate with
        ⟨refused, unchanged⟩ | ⟨blob, accepted, found, room, queued⟩
      · simp only [SubmitterOp.event, SubmitterOp.run, if_neg refused,
          Option.toList_none, List.append_nil, unchanged]
        exact recorded
      · simp only [SubmitterOp.event, SubmitterOp.run, if_pos accepted,
          found, queued, Option.map_some, Option.toList_some]
        exact recorded.enqueue found room
  | takeNext =>
      simp only [SubmitterOp.event, SubmitterOp.run, Option.toList_none,
        List.append_nil]
      exact recorded.takeNext
  | finish threw =>
      cases inFlight : submitter.inFlight with
      | none =>
          simp only [SubmitterOp.event, SubmitterOp.run, finish, inFlight,
            Option.toList_none, List.append_nil]
          exact recorded
      | some taken =>
          have inHand :
              taken ∈ submitter.inFlight.toList ++ submitter.queue := by
            rw [inFlight]
            exact List.mem_cons_self
          obtain ⟨blob, written⟩ :=
            recorded.patchable taken inHand taken.candidate.nonce
          simp only [SubmitterOp.event, SubmitterOp.run, inFlight, written,
            Option.toList_some]
          cases threw with
          | true => exact recorded.finish_threw inFlight
          | false => exact recorded.finish_returned inFlight
  | start =>
      simp only [SubmitterOp.event, SubmitterOp.run, Option.toList_none,
        List.append_nil, start]
      split_ifs
      · exact recorded
      · exact recorded.quiet ⟨bounded.usable, bounded.distinct,
          bounded.listed, bounded.templates, bounded.queue⟩ rfl
          (List.Sublist.refl _)
  | requestStop =>
      simp only [SubmitterOp.event, SubmitterOp.run, Option.toList_none,
        List.append_nil, requestStop]
      split_ifs
      · exact recorded.quiet ⟨bounded.usable, bounded.distinct,
          bounded.listed, bounded.templates, bounded.queue⟩ rfl
          (List.Sublist.refl _)
      · exact recorded
  | finishStop =>
      simp only [SubmitterOp.event, SubmitterOp.run, Option.toList_none,
        List.append_nil, finishStop]
      split_ifs
      · exact recorded.quiet ⟨bounded.usable, bounded.distinct,
          bounded.listed, bounded.templates, Nat.zero_le _⟩ rfl
          ((List.Sublist.refl _).append (List.nil_sublist _))
      · exact recorded

end BlockCandidateSubmitter

open BlockCandidateSubmitter

section Runs

variable {start : BlockCandidateSubmitter}

/-- A run records its history. -/
theorem BlockCandidateSubmitter.Recorded.run
    {earlier : List SubmitterEvent}
    (recorded : Recorded earlier start)
    (ops : List SubmitterOp) :
    Recorded (earlier ++ submitterHistory ops start)
      (runSubmitter ops start) := by
  induction ops generalizing earlier start with
  | nil =>
      rw [submitterHistory, List.append_nil]
      exact recorded
  | cons op rest inductionHypothesis =>
      rw [submitterHistory, ← List.append_assoc]
      exact inductionHypothesis (recorded.step op)

/-- A submitter as built records the empty history. -/
theorem recorded_of_create
    {maxTemplates maxQueue : Nat}
    (built :
      BlockCandidateSubmitter.create maxTemplates maxQueue = .ok start) :
    Recorded [] start := by
  unfold BlockCandidateSubmitter.create at built
  by_cases unusable : maxTemplates = 0 ∨ maxQueue = 0
  · rw [if_pos unusable] at built
    cases built
  rw [if_neg unusable] at built
  cases built
  constructor
  case bounded =>
    refine ⟨fun zero => unusable (.inl zero), List.nodup_nil, ?_, ?_, ?_⟩
    · intro header
      simp
    · simp
    · exact Nat.zero_le _
  case remembered =>
    intro header blob found
    simp at found
  case patchable =>
    intro queued member
    cases member
  case ordered => exact List.Sublist.refl _
  case retired =>
    rintro header ⟨before, queued, blob, after, split, _⟩
    exact absurd split (by simp)

/-- The step of a run that an event belongs to. -/
theorem submitterHistory_split
    {ops : List SubmitterOp}
    {before after : List SubmitterEvent}
    {event : SubmitterEvent}
    (split : submitterHistory ops start = before ++ event :: after) :
    ∃ (first : List SubmitterOp) (op : SubmitterOp),
      submitterHistory first start = before ∧
        op.event (runSubmitter first start) = some event := by
  induction ops generalizing start before with
  | nil => exact absurd split (by simp [submitterHistory])
  | cons op rest inductionHypothesis =>
      rw [submitterHistory] at split
      cases seen : op.event start with
      | none =>
          rw [seen] at split
          obtain ⟨first, later, history, happened⟩ :=
            inductionHypothesis split
          refine ⟨op :: first, later, ?_, happened⟩
          rw [submitterHistory, seen]
          exact history
      | some shown =>
          rw [seen] at split
          cases before with
          | nil =>
              obtain ⟨rfl, _⟩ := List.cons.inj split
              exact ⟨[], op, rfl, seen⟩
          | cons head before =>
              obtain ⟨rfl, remaining⟩ := List.cons.inj split
              obtain ⟨first, later, history, happened⟩ :=
                inductionHypothesis remaining
              refine ⟨op :: first, later, ?_, happened⟩
              rw [submitterHistory, seen, ← history]
              rfl

end Runs

/-- Only the worker shows a submission. -/
theorem event_eq_submitted
    {op : SubmitterOp}
    {submitter : BlockCandidateSubmitter}
    {queued : QueuedCandidate}
    {blob : List UInt8}
    {threw : Bool}
    (happened : op.event submitter = some (.submitted queued blob threw)) :
    submitter.inFlight = some queued ∧
      blockBlobWithNonce queued.blockBlobHex queued.candidate.nonce =
        .ok blob := by
  cases op with
  | finish threw =>
      simp only [SubmitterOp.event] at happened
      cases inFlight : submitter.inFlight with
      | none =>
          rw [inFlight] at happened
          cases happened
      | some taken =>
          rw [inFlight] at happened
          simp only at happened
          cases written : blockBlobWithNonce taken.blockBlobHex
              taken.candidate.nonce with
          | error thrown =>
              rw [written] at happened
              cases happened
          | ok patched =>
              rw [written] at happened
              cases happened
              exact ⟨rfl, written⟩
  | rememberTemplate header template =>
      simp only [SubmitterOp.event] at happened
      split at happened <;> cases happened
  | enqueue candidate =>
      simp only [SubmitterOp.event] at happened
      split at happened
      · cases found :
            submitter.templates[candidate.miningHeaderHash]? with
        | none =>
            rw [found] at happened
            cases happened
        | some template =>
            rw [found] at happened
            cases happened
      · cases happened
  | takeNext => cases happened
  | start => cases happened
  | requestStop => cases happened
  | finishStop => cases happened

/-- Only an admission shows an accepted candidate, with its template. -/
theorem event_eq_accepted
    {op : SubmitterOp}
    {submitter : BlockCandidateSubmitter}
    {queued : QueuedCandidate}
    (happened : op.event submitter = some (.accepted queued)) :
    submitter.templates[queued.candidate.miningHeaderHash]? =
      some queued.blockBlobHex := by
  cases op with
  | enqueue candidate =>
      simp only [SubmitterOp.event] at happened
      split at happened
      · cases found :
            submitter.templates[candidate.miningHeaderHash]? with
        | none =>
            rw [found] at happened
            cases happened
        | some template =>
            rw [found] at happened
            cases happened
            exact found
      · cases happened
  | finish threw =>
      simp only [SubmitterOp.event] at happened
      split at happened
      · cases happened
      · split at happened <;> cases happened
  | rememberTemplate header template =>
      simp only [SubmitterOp.event] at happened
      split at happened <;> cases happened
  | takeNext => cases happened
  | start => cases happened
  | requestStop => cases happened
  | finishStop => cases happened

/--
Every blob handed to the daemon is an accepted candidate's template of its time of
admission with its nonce.  Submissions are a part of the admissions in order, a
header submitted normally is not submitted again before it is remembered again,
and the tables stay in step and within their bounds.
-/
theorem candidates_submittedOnce
    {maxTemplates maxQueue : Nat}
    {start : BlockCandidateSubmitter}
    (built :
      BlockCandidateSubmitter.create maxTemplates maxQueue = .ok start)
    (ops : List SubmitterOp) :
    let history := submitterHistory ops start
    (∀ before queued blob threw after,
      history = before ++ .submitted queued blob threw :: after →
        blockBlobWithNonce queued.blockBlobHex queued.candidate.nonce =
            .ok blob ∧
          ∃ earlier later,
            before = earlier ++ .accepted queued :: later) ∧
      (∀ before queued after,
        history = before ++ .accepted queued :: after →
          lastTemplate before queued.candidate.miningHeaderHash =
            some queued.blockBlobHex) ∧
      (history.filterMap SubmitterEvent.submitted?).Sublist
        (history.filterMap SubmitterEvent.accepted?) ∧
      (∀ before first firstBlob between second secondBlob threw after,
        history =
            before ++ .submitted first firstBlob false ::
              (between ++ .submitted second secondBlob threw :: after) →
          second.candidate.miningHeaderHash =
            first.candidate.miningHeaderHash →
          ∃ template,
            .remembered first.candidate.miningHeaderHash template ∈
              between) ∧
      (runSubmitter ops start).Bounded := by
  have recorded (some : List SubmitterOp) :
      Recorded (submitterHistory some start) (runSubmitter some start) :=
    (recorded_of_create built).run some
  refine ⟨?_, ?_, ?_, ?_, (recorded ops).bounded⟩
  · intro before queued blob threw after split
    obtain ⟨first, op, history, happened⟩ := submitterHistory_split split
    obtain ⟨inFlight, written⟩ := event_eq_submitted happened
    refine ⟨written, ?_⟩
    have ordered := (recorded first).ordered
    rw [inFlight, history] at ordered
    have accepted :
        queued ∈ before.filterMap SubmitterEvent.accepted? :=
      ordered.subset (by simp)
    obtain ⟨event, member, shown⟩ := List.mem_filterMap.mp accepted
    cases event with
    | accepted other =>
        cases shown
        exact List.append_of_mem member
    | remembered header template => cases shown
    | submitted other otherBlob threw => cases shown
  · intro before queued after split
    obtain ⟨first, op, history, happened⟩ := submitterHistory_split split
    have remembered := (recorded first).remembered (event_eq_accepted happened)
    rw [history] at remembered
    exact remembered.1
  · exact (List.sublist_append_left _ _).trans (recorded ops).ordered
  · intro before first firstBlob between second secondBlob threw after split
      same
    rw [← List.cons_append, ← List.append_assoc] at split
    obtain ⟨ran, op, history, happened⟩ := submitterHistory_split split
    obtain ⟨inFlight, _⟩ := event_eq_submitted happened
    by_contra never
    have isRetired :
        Retired (submitterHistory ran start)
          first.candidate.miningHeaderHash :=
      ⟨before, first, firstBlob, between, history, rfl,
        fun template member => never ⟨template, member⟩⟩
    have others := ((recorded ran).retired _ isRetired).2 second
    rw [inFlight] at others
    exact others List.mem_cons_self same

/-- Two candidates of one template; the second is dropped with its header. -/
def sampleSubmitterOps : List SubmitterOp :=
  let template : List UInt8 := List.replicate 18 0x30
  let first : BlockCandidate :=
    { zanoHeight := 7, miningHeaderHash := 5, nonce := 1 }
  let second : BlockCandidate :=
    { zanoHeight := 7, miningHeaderHash := 5, nonce := 2 }
  [.start, .rememberTemplate 5 template, .enqueue first, .enqueue second,
    .takeNext, .finish false, .takeNext, .finish false]

theorem sampleCandidates_submittedOnce :
    ∃ start,
      BlockCandidateSubmitter.create 8 64 = .ok start ∧
        (submitterHistory sampleSubmitterOps start).length = 4 ∧
        (runSubmitter sampleSubmitterOps start).Bounded := by
  refine ⟨_, rfl, by decide +kernel, ?_⟩
  exact (@candidates_submittedOnce 8 64 _ rfl sampleSubmitterOps).2.2.2.2

end ZanoP2pool
