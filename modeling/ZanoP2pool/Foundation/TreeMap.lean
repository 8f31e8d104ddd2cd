import Mathlib

namespace Foundation

/-!
# Ordered maps

Lookup laws of `Std.ExtTreeMap` for a lawful comparison, in the form in which a
present binding is inverted.
-/

variable {κ α : Type} {cmp : κ → κ → Ordering}
variable [Std.TransCmp cmp] [Std.LawfulEqCmp cmp]
variable {map : Std.ExtTreeMap κ α cmp}

/-- Lookup after an insertion. -/
theorem getElem?_insert_iff
    {newKey key : κ}
    {value found : α} :
    (map.insert newKey value)[key]? = some found ↔
      (key = newKey ∧ found = value) ∨
        (key ≠ newKey ∧ map[key]? = some found) := by
  rw [Std.ExtTreeMap.getElem?_insert]
  by_cases same : key = newKey
  · subst key
    simp [Std.ReflCmp.compare_self, eq_comm]
  · simp [same, Ne.symm same, Std.LawfulEqCmp.compare_eq_iff_eq]

/-- Lookup after an insertion at a fresh key. -/
theorem getElem?_insert_fresh
    {newKey key : κ}
    {found : α}
    (fresh : map[newKey]? = none)
    (value : α) :
    (map.insert newKey value)[key]? = some found ↔
      (key = newKey ∧ found = value) ∨ map[key]? = some found := by
  rw [getElem?_insert_iff]
  by_cases same : key = newKey
  · simp [same, fresh]
  · simp [same]

/-- Lookup after an erasure. -/
theorem getElem?_erase_iff
    {erased key : κ}
    {found : α} :
    (map.erase erased)[key]? = some found ↔
      key ≠ erased ∧ map[key]? = some found := by
  rw [Std.ExtTreeMap.getElem?_erase]
  by_cases same : key = erased
  · subst key
    simp [Std.ReflCmp.compare_self]
  · simp [same, Ne.symm same, Std.LawfulEqCmp.compare_eq_iff_eq]

/-- Erasing an absent key changes nothing. -/
theorem erase_of_absent
    {key : κ}
    (absent : map[key]? = none) :
    map.erase key = map := by
  apply Std.ExtTreeMap.ext_getElem?
  intro other
  rw [Std.ExtTreeMap.getElem?_erase]
  by_cases same : key = other
  · subst other
    simp [absent]
  · simp [same, Std.LawfulEqCmp.compare_eq_iff_eq]

/-- Membership as a lookup. -/
theorem contains_iff_getElem?
    {key : κ} :
    map.contains key = true ↔ ∃ value, map[key]? = some value := by
  rw [Std.ExtTreeMap.contains_eq_isSome_getElem?, Option.isSome_iff_exists]

/-- Absence as a lookup. -/
theorem contains_eq_false_iff
    {key : κ} :
    map.contains key = false ↔ map[key]? = none := by
  rw [Std.ExtTreeMap.contains_eq_isSome_getElem?, Option.isSome_eq_false_iff,
    Option.isNone_iff_eq_none]

/-- A map with a binding is not empty. -/
theorem size_pos_of_present
    {key : κ}
    {value : α}
    (present : map[key]? = some value) :
    0 < map.size := by
  by_contra notPositive
  have empty : map = ∅ := by
    rw [← Std.ExtTreeMap.isEmpty_iff,
      Std.ExtTreeMap.isEmpty_eq_size_beq_zero]
    simpa using notPositive
  simp [empty] at present

/-- Erasing a present key removes one binding. -/
theorem size_erase_of_present
    {key : κ}
    {value : α}
    (present : map[key]? = some value) :
    (map.erase key).size + 1 = map.size := by
  have positive := size_pos_of_present present
  have member : map.contains key = true :=
    contains_iff_getElem?.mpr ⟨value, present⟩
  rw [Std.ExtTreeMap.size_erase, if_pos member]
  omega

end Foundation
