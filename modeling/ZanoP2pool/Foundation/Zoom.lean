import ZanoP2pool.Foundation.Effect

namespace Foundation

/-!
# Computations on part of a state

A computation on a component runs on the whole state by reading the component and
writing it back, also when the computation throws.
-/

variable {ε σ τ α : Type}

/-- Run a computation on the component that is read and written back. -/
def zoom
    (read : σ → τ)
    (write : τ → σ → σ)
    (action : EStateM ε τ α) :
    EStateM ε σ α :=
  fun state =>
    match action (read state) with
    | .ok value part => .ok value (write part state)
    | .error thrown part => .error thrown (write part state)

variable {read : σ → τ} {write : τ → σ → σ} {action : EStateM ε τ α}
variable {state final : σ} {value : α} {thrown : ε}

/-- A computation on a component succeeds when it does on the component. -/
theorem zoom_eq_ok :
    zoom read write action state = .ok value final ↔
      ∃ part,
        action (read state) = .ok value part ∧ final = write part state := by
  unfold zoom
  cases action (read state) with
  | ok found part => simp [eq_comm]
  | error failure part => simp

theorem zoom_eq_error :
    zoom read write action state = .error thrown final ↔
      ∃ part,
        action (read state) = .error thrown part ∧
          final = write part state := by
  unfold zoom
  cases action (read state) with
  | ok found part => simp
  | error failure part => simp [eq_comm]

/-- The component ends where the computation on it ends. -/
theorem finalState_zoom
    (read : σ → τ)
    (write : τ → σ → σ)
    (action : EStateM ε τ α)
    (state : σ) :
    finalState (zoom read write action state) =
      write (finalState (action (read state))) state := by
  unfold zoom
  cases action (read state) with
  | ok found part => rfl
  | error failure part => rfl

end Foundation
