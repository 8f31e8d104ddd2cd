import Mathlib

namespace Foundation

/-!
# Hash trees over pairs

A layer of digests is reduced by hashing its neighbours in pairs.  For a layer of
a given length the positions of all pairs are fixed, so two layers of one length
with the same reduction are equal, unless two different pairs have one digest.
-/

variable {α β : Type}

/-- The messages hashed from neighbouring digests. -/
def pairMessages (message : α → α → β) : List α → List β
  | [] => []
  | [_] => []
  | left :: right :: rest => message left right :: pairMessages message rest

/-- One layer up: the digests of the pairs. -/
def pairUp (hash : β → α) (message : α → α → β) (layer : List α) : List α :=
  (pairMessages message layer).map hash

/-- Reduce a layer a number of times. -/
def reduceLayers (hash : β → α) (message : α → α → β) :
    Nat → List α → List α
  | 0, layer => layer
  | levels + 1, layer =>
      reduceLayers hash message levels (pairUp hash message layer)

/-- All messages hashed while a layer is reduced. -/
def layerMessages (hash : β → α) (message : α → α → β) :
    Nat → List α → List β
  | 0, _ => []
  | levels + 1, layer =>
      pairMessages message layer ++
        layerMessages hash message levels (pairUp hash message layer)

/-- No two different messages of the lists have one digest. -/
def NoCollision (hash : β → α) (first second : List β) : Prop :=
  ∀ message ∈ first, ∀ other ∈ second, hash message = hash other →
    message = other

theorem NoCollision.left_append
    {hash : β → α}
    {first leading second trailing : List β}
    (none : NoCollision hash (leading ++ first) (trailing ++ second)) :
    NoCollision hash leading trailing :=
  fun message member other otherMember =>
    none message (List.mem_append_left _ member) other
      (List.mem_append_left _ otherMember)

theorem NoCollision.right_append
    {hash : β → α}
    {first leading second trailing : List β}
    (none : NoCollision hash (leading ++ first) (trailing ++ second)) :
    NoCollision hash first second :=
  fun message member other otherMember =>
    none message (List.mem_append_right _ member) other
      (List.mem_append_right _ otherMember)

/-- Without collisions equal digests come from equal messages. -/
theorem NoCollision.map_injective
    {hash : β → α}
    {first second : List β}
    (none : NoCollision hash first second)
    (same : first.map hash = second.map hash) :
    first = second := by
  induction first generalizing second with
  | nil =>
      symm at same
      exact (List.map_eq_nil_iff.mp same).symm
  | cons message rest inductionHypothesis =>
      cases second with
      | nil => cases same
      | cons other others =>
          obtain ⟨digest, digests⟩ := List.cons.inj same
          have heads := none message (by simp) other (by simp) digest
          have tails :=
            inductionHypothesis
              (fun left inRest right inOthers =>
                none left (by simp [inRest]) right (by simp [inOthers]))
              digests
          rw [heads, tails]

section Layers

variable {hash : β → α} {message : α → α → β}

theorem length_pairUp
    (layer : List α) :
    (pairUp hash message layer).length = layer.length / 2 := by
  rw [pairUp, List.length_map]
  induction layer using pairMessages.induct with
  | case1 => simp [pairMessages]
  | case2 => simp [pairMessages]
  | case3 left right rest inductionHypothesis =>
      rw [pairMessages, List.length_cons, inductionHypothesis]
      simp only [List.length_cons]
      omega

/-- Layers of even length are determined by their messages. -/
theorem pairMessages_injective
    (injective :
      ∀ left right other another,
        message left right = message other another →
          left = other ∧ right = another)
    {first second : List α}
    (even : first.length % 2 = 0)
    (lengths : first.length = second.length)
    (same : pairMessages message first = pairMessages message second) :
    first = second := by
  induction first using pairMessages.induct generalizing second with
  | case1 => exact (List.length_eq_zero_iff.mp lengths.symm).symm
  | case2 => simp at even
  | case3 left right rest inductionHypothesis =>
      match second, lengths with
      | other :: another :: others, lengths =>
          simp only [pairMessages, List.cons.injEq] at same
          obtain ⟨rfl, rfl⟩ := injective _ _ _ _ same.1
          simp only [List.length_cons] at even lengths
          rw [inductionHypothesis (by omega) (by omega) same.2]

/-- Layers with one reduction are equal, unless messages collide. -/
theorem reduceLayers_injective
    (injective :
      ∀ left right other another,
        message left right = message other another →
          left = other ∧ right = another)
    {levels width : Nat}
    {first second : List α}
    (length : first.length = 2 ^ levels * width)
    (otherLength : second.length = 2 ^ levels * width)
    (none :
      NoCollision hash (layerMessages hash message levels first)
        (layerMessages hash message levels second))
    (same :
      reduceLayers hash message levels first =
        reduceLayers hash message levels second) :
    first = second := by
  induction levels generalizing first second with
  | zero => exact same
  | succ levels inductionHypothesis =>
      rw [Nat.pow_succ, Nat.mul_right_comm] at length otherLength
      have upper :=
        inductionHypothesis
          (by rw [length_pairUp, length]; omega)
          (by rw [length_pairUp, otherLength]; omega)
          none.right_append same
      have messages := none.left_append.map_injective upper
      exact pairMessages_injective injective (by omega)
        (length.trans otherLength.symm) messages

end Layers

end Foundation
