import Mathlib

namespace Foundation

/-!
# Stateful computations that may throw

`EStateM ε σ` keeps the state reached at the moment an exception is thrown, as
object mutation does in the source language.  The lemmas below evaluate one
primitive at a time and invert a successful sequence.
-/

variable {ε σ α β : Type}

/-- Run a computation that reads no state and may throw. -/
def orThrow (computation : Except ε α) : EStateM ε σ α :=
  fun state =>
    match computation with
    | .ok value => .ok value state
    | .error thrown => .error thrown state

/-- The state in which a computation ends, normally or by an exception. -/
def finalState : EStateM.Result ε σ α → σ
  | .ok _ state => state
  | .error _ state => state

/-- Whether a computation ended normally. -/
def succeeds : EStateM.Result ε σ α → Bool
  | .ok _ _ => true
  | .error _ _ => false

/-- A computation without a result is determined by its final state. -/
theorem eq_ok_of_succeeds
    {result : EStateM.Result ε σ Unit}
    (succeeded : succeeds result = true) :
    result = .ok () (finalState result) := by
  cases result with
  | ok value state => rfl
  | error thrown state => cases succeeded

/-- The value a computation returned, if it did. -/
def returned : EStateM.Result ε σ α → Option α
  | .ok value _ => some value
  | .error _ _ => none

/-- A returned value and the final state make up the whole result. -/
theorem eq_ok_of_returned
    {result : EStateM.Result ε σ α}
    {value : α}
    (returns : returned result = some value) :
    result = .ok value (finalState result) := by
  cases result with
  | ok found state =>
      cases returns
      rfl
  | error thrown state => cases returns

/-- The exception of a computation, if it threw. -/
def thrown? : EStateM.Result ε σ α → Option ε
  | .ok _ _ => none
  | .error thrown _ => some thrown

theorem eq_error_of_thrown
    {result : EStateM.Result ε σ α}
    {exception : ε}
    (threw : thrown? result = some exception) :
    result = .error exception (finalState result) := by
  cases result with
  | ok value state => cases threw
  | error thrown state =>
      cases threw
      rfl

@[simp] theorem finalState_ok
    (value : α)
    (state : σ) :
    finalState (.ok value state : EStateM.Result ε σ α) = state :=
  rfl

@[simp] theorem finalState_error
    (thrown : ε)
    (state : σ) :
    finalState (.error thrown state : EStateM.Result ε σ α) = state :=
  rfl

@[simp] theorem pure_apply
    (value : α)
    (state : σ) :
    (pure value : EStateM ε σ α) state = .ok value state :=
  rfl

@[simp] theorem throw_apply
    (thrown : ε)
    (state : σ) :
    (throw thrown : EStateM ε σ α) state = .error thrown state :=
  rfl

@[simp] theorem get_apply
    (state : σ) :
    (get : EStateM ε σ σ) state = .ok state state :=
  rfl

@[simp] theorem set_apply
    (next state : σ) :
    (set next : EStateM ε σ PUnit) state = .ok ⟨⟩ next :=
  rfl

@[simp] theorem modify_apply
    (update : σ → σ)
    (state : σ) :
    (modify update : EStateM ε σ PUnit) state = .ok ⟨⟩ (update state) :=
  rfl

@[simp] theorem orThrow_ok
    (value : α)
    (state : σ) :
    (orThrow (.ok value) : EStateM ε σ α) state = .ok value state :=
  rfl

@[simp] theorem orThrow_error
    (thrown : ε)
    (state : σ) :
    (orThrow (.error thrown) : EStateM ε σ α) state =
      .error thrown state :=
  rfl

/-- Sequencing continues from the state the first part ended in. -/
theorem bind_apply
    (first : EStateM ε σ α)
    (next : α → EStateM ε σ β)
    (state : σ) :
    (first >>= next) state =
      match first state with
      | .ok value middle => next value middle
      | .error thrown middle => .error thrown middle :=
  rfl

/-- Evaluate a sequence whose first part succeeds. -/
theorem bind_of_ok
    {first : EStateM ε σ α}
    {next : α → EStateM ε σ β}
    {state middle : σ}
    {value : α}
    (succeeded : first state = .ok value middle) :
    (first >>= next) state = next value middle := by
  rw [bind_apply, succeeded]

/-- Evaluate a sequence whose first part throws. -/
theorem bind_of_error
    {first : EStateM ε σ α}
    {next : α → EStateM ε σ β}
    {state middle : σ}
    {thrown : ε}
    (failed : first state = .error thrown middle) :
    (first >>= next) state = .error thrown middle := by
  rw [bind_apply, failed]

@[simp] theorem get_bind_apply
    (next : σ → EStateM ε σ β)
    (state : σ) :
    (get >>= next) state = next state state :=
  rfl

@[simp] theorem set_bind_apply
    (update state : σ)
    (next : PUnit → EStateM ε σ β) :
    (set update >>= next) state = next ⟨⟩ update :=
  rfl

@[simp] theorem modify_bind_apply
    (update : σ → σ)
    (next : PUnit → EStateM ε σ β)
    (state : σ) :
    (modify update >>= next) state = next ⟨⟩ (update state) :=
  rfl

@[simp] theorem pure_bind_apply
    (value : α)
    (next : α → EStateM ε σ β)
    (state : σ) :
    (pure value >>= next) state = next value state :=
  rfl

@[simp] theorem throw_bind_apply
    (thrown : ε)
    (next : α → EStateM ε σ β)
    (state : σ) :
    ((throw thrown : EStateM ε σ α) >>= next) state =
      .error thrown state :=
  rfl

/-- A sequence succeeds exactly when both parts do, one after the other. -/
theorem bind_eq_ok
    {first : EStateM ε σ α}
    {next : α → EStateM ε σ β}
    {state final : σ}
    {result : β} :
    (first >>= next) state = .ok result final ↔
      ∃ value middle,
        first state = .ok value middle ∧
          next value middle = .ok result final := by
  rw [bind_apply]
  cases first state with
  | ok value middle =>
      simp
  | error thrown middle =>
      simp

/--
A transitive relation between the first and the last state of a sequence holds
when it holds across both parts, whichever way the sequence ends.
-/
theorem finalState_bind
    (relates : σ → σ → Prop)
    (transitive :
      ∀ ⦃first middle last : σ⦄,
        relates first middle → relates middle last → relates first last)
    {first : EStateM ε σ α}
    {next : α → EStateM ε σ β}
    {state : σ}
    (head : relates state (finalState (first state)))
    (tail :
      ∀ value middle,
        first state = .ok value middle →
          relates middle (finalState (next value middle))) :
    relates state (finalState ((first >>= next) state)) := by
  rw [bind_apply]
  cases ran : first state with
  | ok value middle =>
      rw [ran] at head
      exact transitive head (tail value middle ran)
  | error thrown middle =>
      rw [ran] at head
      exact head

/-- A stateless computation leaves the state alone, however it ends. -/
@[simp] theorem finalState_orThrow
    (computation : Except ε α)
    (state : σ) :
    finalState (orThrow computation state) = state := by
  cases computation <;> rfl

/-- A stateless computation succeeds exactly without touching the state. -/
theorem orThrow_eq_ok
    {computation : Except ε α}
    {state final : σ}
    {value : α} :
    orThrow computation state = .ok value final ↔
      computation = .ok value ∧ final = state := by
  cases computation with
  | ok found =>
      simp [orThrow, eq_comm]
  | error thrown =>
      simp [orThrow]

/-- Sequencing of stateless computations succeeds exactly when both do. -/
theorem except_bind_eq_ok
    {first : Except ε α}
    {next : α → Except ε β}
    {result : β} :
    (first >>= next) = .ok result ↔
      ∃ value, first = .ok value ∧ next value = .ok result := by
  cases first with
  | ok value =>
      simp [bind, Except.bind]
  | error thrown =>
      simp [bind, Except.bind]

/-- A chained computation fails where one of its parts fails. -/
theorem except_bind_eq_error
    {first : Except ε α}
    {next : α → Except ε β}
    {failure : ε} :
    (first >>= next) = .error failure ↔
      first = .error failure ∨ ∃ value, first = .ok value ∧
        next value = .error failure := by
  cases first <;> simp [bind, Except.bind]

/-- A loop that fails does so in one of its steps. -/
theorem foldlM_eq_error
    {items : List α}
    {step : β → α → Except ε β}
    {start : β}
    {failure : ε}
    (failed : items.foldlM step start = .error failure) :
    ∃ item ∈ items, ∃ reached, step reached item = .error failure := by
  induction items generalizing start with
  | nil => cases failed
  | cons item rest inductionHypothesis =>
      rw [List.foldlM_cons] at failed
      rcases except_bind_eq_error.mp failed with here | ⟨reached, _, later⟩
      · exact ⟨item, List.mem_cons_self, start, here⟩
      · obtain ⟨other, member, broken⟩ := inductionHypothesis later
        exact ⟨other, List.mem_cons_of_mem _ member, broken⟩

/-- A check before a computation has to succeed as well. -/
theorem except_seq_eq_ok
    {check : Except ε Unit}
    {next : Except ε β}
    {result : β} :
    (check >>= fun _ => next) = .ok result ↔
      check = .ok () ∧ next = .ok result := by
  rw [except_bind_eq_ok]
  constructor
  · rintro ⟨⟨⟩, passed, continued⟩
    exact ⟨passed, continued⟩
  · rintro ⟨passed, continued⟩
    exact ⟨(), passed, continued⟩

/-- A loop of checks succeeds exactly when every check does. -/
theorem forM_eq_ok
    {items : List α}
    {check : α → Except ε Unit} :
    items.forM check = .ok () ↔
      ∀ item ∈ items, check item = .ok () := by
  induction items with
  | nil =>
      simp [pure, Except.pure]
  | cons item rest inductionHypothesis =>
      change (check item >>= fun _ => rest.forM check) = _ ↔ _
      rw [except_seq_eq_ok, List.forall_mem_cons, ← inductionHypothesis]

/-- A guarded computation succeeds exactly when the guard does not fire. -/
theorem except_guard_eq_ok
    {condition : Prop}
    [Decidable condition]
    {thrown : ε}
    {next : Except ε α}
    {value : α} :
    (if condition then .error thrown else next) = .ok value ↔
      ¬ condition ∧ next = .ok value := by
  split <;> simp_all

/-- Mapping a computation over a list succeeds when each call does. -/
theorem mapM_eq_ok
    {items : List α}
    {compute : α → Except ε β}
    (each : ∀ item ∈ items, ∃ value, compute item = .ok value) :
    ∃ values,
      items.mapM compute = .ok values ∧
      List.Forall₂ (fun item value => compute item = .ok value)
        items values := by
  induction items with
  | nil =>
      exact ⟨[], rfl, .nil⟩
  | cons item rest inductionHypothesis =>
      obtain ⟨⟨value, computed⟩, others⟩ := List.forall_mem_cons.mp each
      obtain ⟨values, mapped, related⟩ := inductionHypothesis others
      refine ⟨value :: values, ?_, .cons computed related⟩
      rw [List.mapM_cons, computed, mapped]
      rfl

end Foundation
