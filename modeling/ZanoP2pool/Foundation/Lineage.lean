import Mathlib

namespace Foundation

/-!
# Admitted lineages of a pool

Items name a parent by identity, and an acceptance rule judges an item by the
path below it.  A lineage is a path of pool items from a root in which every
item is accepted on the path below it.  When identities are distinct the path
below an identity is unique, so what a pool admits does not depend on the order
in which its items arrive.
-/

/-- Identities, parents and the acceptance rule of a kind of items. -/
structure Genealogy (Item Id : Type) where
  idOf : Item → Id
  parentOf : Item → Id
  root : Id
  accepts : List Item → Item → Prop

variable {Item Id : Type}

namespace Genealogy

variable (genealogy : Genealogy Item Id)

/-- Identity at the top of a path; the empty path ends at the root. -/
def tip : List Item → Id
  | [] => genealogy.root
  | item :: _ => genealogy.idOf item

/-- A path of pool items, newest first, each accepted on the path below it. -/
inductive Lineage (pool : Set Item) : List Item → Prop where
  | root :
      Lineage pool []
  | extend
      {item : Item}
      {below : List Item} :
      Lineage pool below →
      item ∈ pool →
      genealogy.parentOf item = genealogy.tip below →
      genealogy.accepts below item →
      Lineage pool (item :: below)

/-- Identities tell pool items apart and never denote the root. -/
structure Distinct (pool : Set Item) : Prop where
  injective :
    ∀ ⦃first⦄, first ∈ pool → ∀ ⦃second⦄, second ∈ pool →
      genealogy.idOf first = genealogy.idOf second → first = second
  notRoot : ∀ ⦃item⦄, item ∈ pool → genealogy.idOf item ≠ genealogy.root

/-- An item whose parent path is admitted but which is not accepted on it. -/
def Refused (pool : Set Item) (item : Item) : Prop :=
  ∃ below,
    genealogy.Lineage pool below ∧
    genealogy.parentOf item = genealogy.tip below ∧
    ¬ genealogy.accepts below item

end Genealogy

/-- Part of a distinct pool is distinct. -/
theorem Genealogy.Distinct.subset
    {genealogy : Genealogy Item Id}
    {pool larger : Set Item}
    (distinct : genealogy.Distinct larger)
    (contained : pool ⊆ larger) :
    genealogy.Distinct pool where
  injective := fun _ first _ second =>
    distinct.injective (contained first) (contained second)
  notRoot := fun _ member => distinct.notRoot (contained member)

namespace Genealogy.Lineage

variable {genealogy : Genealogy Item Id} {pool larger : Set Item}

/-- A distinct pool has at most one lineage above each identity. -/
theorem unique
    (distinct : genealogy.Distinct pool)
    {first second : List Item}
    (firstLineage : genealogy.Lineage pool first)
    (secondLineage : genealogy.Lineage pool second)
    (sameTip : genealogy.tip first = genealogy.tip second) :
    first = second := by
  induction firstLineage generalizing second with
  | root =>
      cases secondLineage with
      | root => rfl
      | extend _ member _ _ =>
          exact (distinct.notRoot member sameTip.symm).elim
  | extend below member parent _ inductionHypothesis =>
      cases secondLineage with
      | root =>
          exact (distinct.notRoot member sameTip).elim
      | extend otherBelow otherMember otherParent _ =>
          have sameItem := distinct.injective member otherMember sameTip
          subst sameItem
          rw [inductionHypothesis otherBelow
            (parent.symm.trans otherParent)]

/-- A lineage remains one in a larger pool. -/
theorem mono
    (contained : pool ⊆ larger)
    {path : List Item}
    (lineage : genealogy.Lineage pool path) :
    genealogy.Lineage larger path := by
  induction lineage with
  | root => exact .root
  | extend _ member parent accepted inductionHypothesis =>
      exact .extend inductionHypothesis (contained member) parent accepted

end Genealogy.Lineage

/-- A refused item stays refused in a larger pool. -/
theorem Genealogy.Refused.mono
    {genealogy : Genealogy Item Id}
    {pool larger : Set Item}
    (contained : pool ⊆ larger)
    {item : Item}
    (refused : genealogy.Refused pool item) :
    genealogy.Refused larger item := by
  obtain ⟨below, lineage, parent, rejected⟩ := refused
  exact ⟨below, lineage.mono contained, parent, rejected⟩

end Foundation
