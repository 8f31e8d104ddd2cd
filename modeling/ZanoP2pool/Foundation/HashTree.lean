import ZanoP2pool.Foundation.PairTree

namespace Foundation

/-!
# Binary hash trees

A list of nodes is joined in neighbouring pairs, level by level, or as the two
halves of a perfect tree; both give one root.  Joining commutes with every
homomorphism, so the tree of the leaves themselves says which leaves enter a root,
and in which order.
-/

variable {α β : Type}

/-- A binary tree with values at its leaves. -/
inductive HashTree (α : Type) where
  | leaf : α → HashTree α
  | node : HashTree α → HashTree α → HashTree α
  deriving Repr, DecidableEq

namespace HashTree

/-- The values at the leaves, from left to right. -/
def leaves : HashTree α → List α
  | leaf value => [value]
  | node left right => left.leaves ++ right.leaves

/-- The root of a tree under a binary hash function. -/
def root (hash : α → α → α) : HashTree α → α
  | leaf value => value
  | node left right => hash (left.root hash) (right.root hash)

/-- The argument pairs hashed for the root. -/
def hashedPairs (hash : α → α → α) : HashTree α → List (α × α)
  | leaf _ => []
  | node left right =>
      (left.root hash, right.root hash) ::
        (left.hashedPairs hash ++ right.hashedPairs hash)

/-- A tree with its values forgotten. -/
def shape : HashTree α → HashTree Unit
  | leaf _ => leaf ()
  | node left right => node left.shape right.shape

/-- Two trees of one shape with one root are equal, or the hash collides. -/
theorem eq_or_collision
    {hash : α → α → α}
    {first second : HashTree α}
    (shapes : first.shape = second.shape)
    (same : first.root hash = second.root hash) :
    first = second ∨
      ∃ pair ∈ first.hashedPairs hash, ∃ other ∈ second.hashedPairs hash,
        pair ≠ other ∧ hash pair.1 pair.2 = hash other.1 other.2 := by
  induction first generalizing second with
  | leaf value =>
      cases second with
      | leaf other => exact .inl (congrArg leaf same)
      | node left right => cases shapes
  | node left right leftHypothesis rightHypothesis =>
      cases second with
      | leaf other => cases shapes
      | node otherLeft otherRight =>
          obtain ⟨leftShapes, rightShapes⟩ := node.inj shapes
          by_cases pairs :
              (left.root hash, right.root hash) =
                (otherLeft.root hash, otherRight.root hash)
          · obtain ⟨leftRoots, rightRoots⟩ := Prod.mk.inj pairs
            rcases leftHypothesis leftShapes leftRoots with
              sameLeft | ⟨pair, inLeft, other, inOther, collision⟩
            · rcases rightHypothesis rightShapes rightRoots with
                sameRight | ⟨pair, inRight, other, inOther, collision⟩
              · exact .inl (by rw [sameLeft, sameRight])
              · exact .inr ⟨pair, by simp [hashedPairs, inRight], other,
                  by simp [hashedPairs, inOther], collision⟩
            · exact .inr ⟨pair, by simp [hashedPairs, inLeft], other,
                by simp [hashedPairs, inOther], collision⟩
          · exact .inr ⟨_, List.mem_cons_self, _, List.mem_cons_self, pairs,
              same⟩

end HashTree

/-- The nodes joined in neighbouring pairs. -/
def joinPairs (join : α → α → α) (nodes : List α) : List α :=
  pairUp (fun pair : α × α => join pair.1 pair.2) Prod.mk nodes

/-- The root of the perfect tree over a power of two of nodes. -/
def perfectRoot (join : α → α → α) : Nat → List α → Option α
  | 0, nodes => nodes.head?
  | levels + 1, nodes => do
      let left ← perfectRoot join levels (nodes.take (2 ^ levels))
      let right ← perfectRoot join levels (nodes.drop (2 ^ levels))
      return join left right

section Joining

variable {join : α → α → α} {joinImage : β → β → β} {image : α → β}

@[simp] theorem joinPairs_nil : joinPairs join [] = [] := rfl

@[simp] theorem joinPairs_cons
    (left right : α)
    (rest : List α) :
    joinPairs join (left :: right :: rest) =
      join left right :: joinPairs join rest := rfl

theorem length_joinPairs
    (nodes : List α) :
    (joinPairs join nodes).length = nodes.length / 2 :=
  length_pairUp nodes

/-- Pairs of a list with an even first part are joined part by part. -/
theorem joinPairs_append
    {first : List α}
    (even : first.length % 2 = 0)
    (second : List α) :
    joinPairs join (first ++ second) =
      joinPairs join first ++ joinPairs join second := by
  induction first using pairMessages.induct with
  | case1 => rfl
  | case2 node => simp at even
  | case3 left right rest inductionHypothesis =>
      simp only [List.length_cons] at even
      simp only [List.cons_append, joinPairs_cons,
        inductionHypothesis (by omega)]

/-- A homomorphism maps joined pairs to joined pairs. -/
theorem map_joinPairs
    (natural :
      ∀ left right, image (join left right) =
        joinImage (image left) (image right))
    (nodes : List α) :
    (joinPairs join nodes).map image =
      joinPairs joinImage (nodes.map image) := by
  induction nodes using pairMessages.induct with
  | case1 => rfl
  | case2 node => rfl
  | case3 left right rest inductionHypothesis =>
      simp only [joinPairs_cons, List.map_cons, natural, inductionHypothesis]

/-- A homomorphism maps roots to roots. -/
theorem map_perfectRoot
    (natural :
      ∀ left right, image (join left right) =
        joinImage (image left) (image right))
    (levels : Nat)
    (nodes : List α) :
    (perfectRoot join levels nodes).map image =
      perfectRoot joinImage levels (nodes.map image) := by
  induction levels generalizing nodes with
  | zero => simp [perfectRoot]
  | succ levels inductionHypothesis =>
      rw [perfectRoot, perfectRoot, ← List.map_take, ← List.map_drop,
        ← inductionHypothesis, ← inductionHypothesis]
      cases perfectRoot join levels (nodes.take (2 ^ levels)) with
      | none => rfl
      | some left =>
          cases perfectRoot join levels (nodes.drop (2 ^ levels)) with
          | none => rfl
          | some right => exact congrArg some (natural left right)

/-- A perfect tree has a root. -/
theorem perfectRoot_isSome
    {levels : Nat}
    {nodes : List α}
    (length : nodes.length = 2 ^ levels) :
    ∃ root, perfectRoot join levels nodes = some root := by
  induction levels generalizing nodes with
  | zero =>
      match nodes, length with
      | [node], _ => exact ⟨node, rfl⟩
  | succ levels inductionHypothesis =>
      rw [Nat.pow_succ] at length
      obtain ⟨left, leftRoot⟩ :=
        @inductionHypothesis (nodes.take (2 ^ levels))
          (by rw [List.length_take]; omega)
      obtain ⟨right, rightRoot⟩ :=
        @inductionHypothesis (nodes.drop (2 ^ levels))
          (by rw [List.length_drop]; omega)
      exact ⟨join left right, by rw [perfectRoot, leftRoot, rightRoot]; rfl⟩

/-- Joining the lowest level first leaves the root alone. -/
theorem perfectRoot_joinPairs
    {levels : Nat}
    {nodes : List α}
    (length : nodes.length = 2 ^ (levels + 1)) :
    perfectRoot join (levels + 1) nodes =
      perfectRoot join levels (joinPairs join nodes) := by
  induction levels generalizing nodes with
  | zero =>
      match nodes, length with
      | [left, right], _ => rfl
  | succ levels inductionHypothesis =>
      have leftLength : (nodes.take (2 ^ (levels + 1))).length = 2 ^ (levels + 1) := by
        rw [List.length_take, length, Nat.pow_succ]
        omega
      have rightLength : (nodes.drop (2 ^ (levels + 1))).length = 2 ^ (levels + 1) := by
        rw [List.length_drop, length, Nat.pow_succ _ (levels + 1)]
        omega
      have joined :
          joinPairs join nodes =
            joinPairs join (nodes.take (2 ^ (levels + 1))) ++
              joinPairs join (nodes.drop (2 ^ (levels + 1))) := by
        rw [← joinPairs_append (by rw [leftLength, Nat.pow_succ]; omega),
          List.take_append_drop]
      have joinedLength :
          (joinPairs join (nodes.take (2 ^ (levels + 1)))).length = 2 ^ levels := by
        rw [length_joinPairs, leftLength, Nat.pow_succ]
        omega
      rw [perfectRoot, inductionHypothesis leftLength,
        inductionHypothesis rightLength, joined]
      conv_rhs => rw [perfectRoot]
      rw [← joinedLength, List.take_left, List.drop_left]

end Joining

end Foundation
