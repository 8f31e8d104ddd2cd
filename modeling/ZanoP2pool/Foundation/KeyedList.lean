import Mathlib

namespace Foundation

/-!
# Lists of entries with distinct keys

A directory, a table or a registry kept as a list: its entries are found by
their key.  The lemmas say what a lookup finds after an entry has been added,
changed or removed, and that these operations keep the keys distinct.
-/

variable {α κ : Type} [DecidableEq κ]

/-- The first entry under a key. -/
def atKey (key : α → κ) (entries : List α) (name : κ) : Option α :=
  entries.find? fun entry => key entry = name

/-- Whether every key occurs once. -/
def DistinctKeys (key : α → κ) (entries : List α) : Prop :=
  (entries.map key).Nodup

variable {key : α → κ} {entries : List α} {name other : κ} {entry : α}

theorem key_of_atKey
    (found : atKey key entries name = some entry) :
    key entry = name := by
  simpa using List.find?_some found

theorem mem_of_atKey
    (found : atKey key entries name = some entry) :
    entry ∈ entries :=
  List.mem_of_find?_eq_some found

theorem atKey_eq_none :
    atKey key entries name = none ↔ ∀ entry ∈ entries, key entry ≠ name := by
  simp [atKey]

/-- With distinct keys every entry is the one found under its key. -/
theorem atKey_of_mem
    (distinct : DistinctKeys key entries)
    (member : entry ∈ entries) :
    atKey key entries (key entry) = some entry := by
  induction entries with
  | nil => cases member
  | cons first rest inductionHypothesis =>
      obtain ⟨unused, distinctRest⟩ := List.nodup_cons.mp distinct
      rcases List.mem_cons.mp member with rfl | inRest
      · simp [atKey]
      · have differs : key first ≠ key entry := by
          intro same
          rw [same] at unused
          exact unused (List.mem_map_of_mem inRest)
        rw [atKey, List.find?_cons_of_neg (by simpa using differs)]
        exact inductionHypothesis distinctRest inRest

/-- Adding an entry under an unused key leaves the others in place. -/
theorem atKey_append
    (unused : atKey key entries (key entry) = none) :
    atKey key (entries ++ [entry]) name =
      if key entry = name then some entry else atKey key entries name := by
  unfold atKey at unused ⊢
  rw [List.find?_append]
  split_ifs with same
  · subst same
    simp [unused]
  · simp [same]

theorem distinctKeys_append
    (distinct : DistinctKeys key entries)
    (unused : atKey key entries (key entry) = none) :
    DistinctKeys key (entries ++ [entry]) := by
  unfold DistinctKeys
  rw [List.map_append, List.map_cons, List.map_nil, List.nodup_append]
  refine ⟨distinct, List.nodup_singleton _, ?_⟩
  intro listed inEntries added isEntry
  obtain ⟨found, member, rfl⟩ := List.mem_map.mp inEntries
  rw [List.mem_singleton.mp isEntry]
  exact atKey_eq_none.mp unused found member

/-- Removing the entries of a key leaves the others in place. -/
theorem atKey_remove :
    atKey key (entries.filter fun entry => key entry ≠ other) name =
      if name = other then none else atKey key entries name := by
  split_ifs with same
  · subst same
    rw [atKey_eq_none]
    intro entry member
    simpa using (List.mem_filter.mp member).2
  · unfold atKey
    rw [List.find?_filter]
    congr 1
    funext entry
    by_cases here : key entry = name
    · simp [here, same]
    · simp [here]

theorem distinctKeys_remove
    (distinct : DistinctKeys key entries) :
    DistinctKeys key (entries.filter fun entry => key entry ≠ other) :=
  distinct.sublist (List.filter_sublist.map key)

/-- Changing the entries of a key leaves the others in place. -/
theorem atKey_change
    {change : α → α}
    (keeps : ∀ entry, key (change entry) = key entry) :
    atKey key
        (entries.map fun entry =>
          if key entry = other then change entry else entry) name =
      if name = other then (atKey key entries name).map change
      else atKey key entries name := by
  induction entries with
  | nil => simp [atKey]
  | cons first rest inductionHypothesis =>
      unfold atKey at inductionHypothesis ⊢
      rw [List.map_cons]
      by_cases here : key first = name
      · by_cases changed : key first = other
        · have same : name = other := here.symm.trans changed
          simp [changed, keeps, same]
        · have differs : name ≠ other := fun same =>
            changed (here.trans same)
          simp [here, differs]
      · by_cases changed : key first = other
        · rw [if_pos changed, List.find?_cons_of_neg (by simpa [keeps]),
            List.find?_cons_of_neg (by simpa using here)]
          exact inductionHypothesis
        · rw [if_neg changed, List.find?_cons_of_neg (by simpa using here),
            List.find?_cons_of_neg (by simpa using here)]
          exact inductionHypothesis

theorem distinctKeys_change
    {change : α → α}
    (keeps : ∀ entry, key (change entry) = key entry)
    (distinct : DistinctKeys key entries) :
    DistinctKeys key
      (entries.map fun entry =>
        if key entry = other then change entry else entry) := by
  have sameKeys :
      (entries.map fun entry =>
          if key entry = other then change entry else entry).map key =
        entries.map key := by
    rw [List.map_map]
    apply List.map_congr_left
    intro entry _
    by_cases changed : key entry = other
    · simp [changed, keeps]
    · simp [changed]
  unfold DistinctKeys
  rw [sameKeys]
  exact distinct

end Foundation
