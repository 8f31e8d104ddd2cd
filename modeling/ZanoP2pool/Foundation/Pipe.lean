import Mathlib.Data.List.Basic

namespace Foundation

/-!
# One-way pipes

A pipe carries items in order.  What has been written is on its way until it is
delivered; a pipe that is cut loses what is on its way.  The content of a pipe is
all that its reader can still get.
-/

/-- Items that can be read, items on their way, and whether the writer is gone. -/
structure Pipe (α : Type) where
  arrived : List α := []
  inFlight : List α := []
  closed : Bool := false
  deriving Repr, DecidableEq

namespace Pipe

variable {α : Type} {pipe : Pipe α}

/-- What is written after the end is lost. -/
def write (items : List α) (pipe : Pipe α) : Pipe α :=
  if pipe.closed then pipe
  else { pipe with inFlight := pipe.inFlight ++ items }

def deliver (count : Nat) (pipe : Pipe α) : Pipe α :=
  { pipe with
    arrived := pipe.arrived ++ pipe.inFlight.take count
    inFlight := pipe.inFlight.drop count }

def close (pipe : Pipe α) : Pipe α :=
  { pipe with closed := true }

/-- The link breaks, with the loss of what is on its way. -/
def cut (pipe : Pipe α) : Pipe α :=
  { pipe with inFlight := [], closed := true }

/-- A reader learns of the end once nothing is on its way. -/
def ended (pipe : Pipe α) : Bool :=
  pipe.closed && pipe.inFlight.isEmpty

def content (pipe : Pipe α) : List α :=
  pipe.arrived ++ pipe.inFlight

@[simp] theorem content_deliver (count : Nat) :
    (pipe.deliver count).content = pipe.content := by
  unfold content deliver
  rw [List.append_assoc, List.take_append_drop]

@[simp] theorem content_close : pipe.close.content = pipe.content :=
  rfl

theorem content_cut : pipe.cut.content <+: pipe.content := by
  unfold content cut
  rw [List.append_nil]
  exact List.prefix_append _ _

theorem content_write (items : List α) :
    (pipe.write items).content <+: pipe.content ++ items := by
  unfold write content
  split_ifs
  · exact List.prefix_append _ _
  · exact ⟨[], by simp⟩

/-- Delivering all of an open pipe makes its content readable. -/
theorem deliver_all
    {count : Nat}
    (isOpen : pipe.closed = false)
    (enough : pipe.content.length ≤ count) :
    pipe.deliver count = { arrived := pipe.content } := by
  have short : pipe.inFlight.length ≤ count := by
    rw [content, List.length_append] at enough
    omega
  unfold deliver content
  rw [List.take_of_length_le short, List.drop_of_length_le short, isOpen]

@[simp] theorem deliver_empty (count : Nat) (closed : Bool) :
    ({ closed } : Pipe α).deliver count = { closed } := by
  unfold deliver
  rw [List.take_nil, List.drop_nil, List.append_nil]

end Pipe

end Foundation
