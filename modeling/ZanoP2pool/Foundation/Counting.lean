import ZanoP2pool.Foundation.TreeMap

namespace Foundation

/-!
# Counting bindings of ordered maps

The number of bindings of `Std.ExtTreeMap` that satisfy a condition, and how
insertion, erasure and filtering change it.
-/

variable {κ α : Type} {cmp : κ → κ → Ordering}
variable [Std.TransCmp cmp] [Std.LawfulEqCmp cmp]
variable {map other : Std.ExtTreeMap κ α cmp}

/-- Lookup after filtering. -/
theorem getElem?_filter_iff
    {keep : κ → α → Bool}
    {key : κ}
    {found : α} :
    (map.filter keep)[key]? = some found ↔
      map[key]? = some found ∧ keep key found = true := by
  rw [Std.ExtTreeMap.getElem?_filter', Option.filter_eq_some_iff]

/-- A map whose keys are all present in another one is not larger. -/
theorem size_le_of_present
    (present :
      ∀ (key : κ) (value : α), map[key]? = some value →
        ∃ found, other[key]? = some found) :
    map.size ≤ other.size := by
  rw [← Std.ExtTreeMap.length_keys, ← Std.ExtTreeMap.length_keys]
  apply List.Subperm.length_le
  apply Std.ExtTreeMap.nodup_keys.subperm
  intro key member
  rw [Std.ExtTreeMap.mem_keys, ← Std.ExtTreeMap.contains_iff_mem] at member ⊢
  obtain ⟨value, found⟩ := contains_iff_getElem?.mp member
  exact contains_iff_getElem?.mpr (present key value found)

/-- How many bindings satisfy a condition. -/
def countBindings
    (map : Std.ExtTreeMap κ α cmp)
    (counts : κ × α → Bool) :
    Nat :=
  map.toList.countP counts

variable {counts : κ × α → Bool}

omit [Std.LawfulEqCmp cmp] in
theorem countBindings_eq_size :
    countBindings map counts =
      (map.filter fun key value => counts (key, value)).size := by
  rw [← Std.ExtTreeMap.length_toList, Std.ExtTreeMap.toList_filter,
    countBindings, List.countP_eq_length_filter]

/-- Fewer bindings are counted when each counted one is counted in the other. -/
theorem countBindings_le_of_present
    (present :
      ∀ (key : κ) (value : α),
        map[key]? = some value → counts (key, value) = true →
        ∃ found, other[key]? = some found ∧ counts (key, found) = true) :
    countBindings map counts ≤ countBindings other counts := by
  rw [countBindings_eq_size, countBindings_eq_size]
  apply size_le_of_present
  intro key value found
  obtain ⟨bound, counted⟩ := getElem?_filter_iff.mp found
  obtain ⟨replacement, kept, still⟩ := present key value bound counted
  exact ⟨replacement, getElem?_filter_iff.mpr ⟨kept, still⟩⟩

/-- A filtered map counts no more bindings. -/
theorem countBindings_filter_le
    (keep : κ → α → Bool) :
    countBindings (map.filter keep) counts ≤ countBindings map counts := by
  apply countBindings_le_of_present
  intro kept value found counted
  exact ⟨value, (getElem?_filter_iff.mp found).1, counted⟩

/-- An insertion counts at most one more binding. -/
theorem countBindings_insert_le
    (key : κ)
    (value : α) :
    countBindings (map.insert key value) counts ≤
      countBindings map counts + 1 := by
  rw [countBindings_eq_size, countBindings_eq_size]
  refine le_trans
    (@size_le_of_present _ _ _ _ _ _
      ((map.filter fun key value => counts (key, value)).insert key value) ?_)
    Std.ExtTreeMap.size_insert_le
  intro kept found bound
  obtain ⟨bound, counted⟩ := getElem?_filter_iff.mp bound
  rcases getElem?_insert_iff.mp bound with ⟨rfl, rfl⟩ | ⟨other, bound⟩
  · exact ⟨found, getElem?_insert_iff.mpr (Or.inl ⟨rfl, rfl⟩)⟩
  · exact ⟨found, getElem?_insert_iff.mpr
      (Or.inr ⟨other, getElem?_filter_iff.mpr ⟨bound, counted⟩⟩)⟩

/-- An insertion of a binding that is not counted counts no more of them. -/
theorem countBindings_insert_of_uncounted
    {key : κ}
    {value : α}
    (uncounted : counts (key, value) = false) :
    countBindings (map.insert key value) counts ≤
      countBindings map counts := by
  apply countBindings_le_of_present
  intro kept found bound counted
  rcases getElem?_insert_iff.mp bound with ⟨rfl, rfl⟩ | ⟨_, bound⟩
  · rw [uncounted] at counted
    cases counted
  · exact ⟨found, bound, counted⟩

/-- Replacing a counted binding counts no more of them. -/
theorem countBindings_insert_of_counted
    {key : κ}
    {old : α}
    (present : map[key]? = some old)
    (wasCounted : counts (key, old) = true)
    (value : α) :
    countBindings (map.insert key value) counts ≤
      countBindings map counts := by
  apply countBindings_le_of_present
  intro kept found bound counted
  rcases getElem?_insert_iff.mp bound with ⟨rfl, rfl⟩ | ⟨_, bound⟩
  · exact ⟨old, present, wasCounted⟩
  · exact ⟨found, bound, counted⟩

/-- Replacing a binding keeps the number of bindings. -/
theorem size_insert_of_present
    {key : κ}
    {old : α}
    (present : map[key]? = some old)
    (value : α) :
    (map.insert key value).size = map.size := by
  rw [Std.ExtTreeMap.size_insert,
    if_pos (contains_iff_getElem?.mpr ⟨old, present⟩)]

end Foundation
