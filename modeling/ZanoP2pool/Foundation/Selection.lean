import Mathlib.Data.List.Sort

namespace Foundation

/-!
# Selection by rank

A selection puts the element of a given rank in its place and reorders the others
at will.  Whatever it does with the others, selecting again on the reordered list
finds the elements of the original ranks.
-/

variable {α : Type} {r : α → α → Prop} [DecidableRel r]

/-- An algorithm that reorders a list around the element of one rank. -/
structure NthElement (r : α → α → Prop) [DecidableRel r] where
  reorder : List α → Nat → List α
  permutes :
    ∀ (items : List α) (rank : Nat), (reorder items rank).Perm items
  ranked :
    ∀ (items : List α) (rank : Nat),
      rank < items.length →
        (reorder items rank)[rank]? = (items.insertionSort r)[rank]?

/-- Sorting the whole list is one way to select. -/
def NthElement.bySorting : NthElement r where
  reorder items _ := items.insertionSort r
  permutes items _ := List.perm_insertionSort r items
  ranked _ _ _ := rfl

/-- Sorting forgets the order of the list. -/
theorem insertionSort_eq_of_perm
    [Std.Antisymm r]
    [Std.Total r]
    [IsTrans α r]
    {left right : List α}
    (same : left.Perm right) :
    left.insertionSort r = right.insertionSort r := by
  have sorted : (left.insertionSort r).Perm (right.insertionSort r) :=
    (List.perm_insertionSort r left).trans
      (same.trans (List.perm_insertionSort r right).symm)
  exact sorted.eq_of_pairwise' (List.pairwise_insertionSort r left)
    (List.pairwise_insertionSort r right)

namespace NthElement

variable (selection : NthElement r) {items : List α} {rank : Nat}

/-- A selection reads the element of its rank. -/
theorem getD_reorder
    (inside : rank < items.length)
    (fallback : α) :
    (selection.reorder items rank).getD rank fallback =
      (items.insertionSort r).getD rank fallback := by
  rw [List.getD_eq_getElem?_getD, List.getD_eq_getElem?_getD,
    selection.ranked items rank inside]

/-- A second selection is not disturbed by the first. -/
theorem getD_reorder_reorder
    [Std.Antisymm r]
    [Std.Total r]
    [IsTrans α r]
    (inside : rank < items.length)
    (first : Nat)
    (fallback : α) :
    (selection.reorder (selection.reorder items first) rank).getD rank
        fallback =
      (items.insertionSort r).getD rank fallback := by
  have reordered := selection.permutes items first
  rw [selection.getD_reorder (by rw [reordered.length_eq]; exact inside),
    insertionSort_eq_of_perm reordered]

end NthElement

end Foundation
