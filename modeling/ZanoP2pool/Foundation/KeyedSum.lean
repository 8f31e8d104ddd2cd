import Mathlib

namespace Foundation

/-!
# Sums grouped by key

Entries carry a key and a weight.  Collecting the weights key by key loses
nothing: over any list of distinct keys that covers the entries, the collected
sums add up to the sum of all weights, in whatever order the entries come.
-/

variable {κ : Type} [DecidableEq κ]

/-- Total weight of the entries with a key. -/
def keyedSum (entries : List (κ × Nat)) (key : κ) : Nat :=
  ((entries.filter fun entry => entry.1 = key).map Prod.snd).sum

@[simp] theorem keyedSum_nil
    (key : κ) :
    keyedSum [] key = 0 :=
  rfl

theorem keyedSum_cons
    (entry : κ × Nat)
    (rest : List (κ × Nat))
    (key : κ) :
    keyedSum (entry :: rest) key =
      (if entry.1 = key then entry.2 else 0) + keyedSum rest key := by
  by_cases same : entry.1 = key
  · simp [keyedSum, same]
  · simp [keyedSum, same]

theorem keyedSum_append
    (first second : List (κ × Nat))
    (key : κ) :
    keyedSum (first ++ second) key =
      keyedSum first key + keyedSum second key := by
  simp [keyedSum]

theorem keyedSum_perm
    {first second : List (κ × Nat)}
    (perm : first.Perm second)
    (key : κ) :
    keyedSum first key = keyedSum second key :=
  ((perm.filter _).map Prod.snd).sum_eq

/-- An entry is part of the sum of its key. -/
theorem le_keyedSum
    {entries : List (κ × Nat)}
    {entry : κ × Nat}
    (member : entry ∈ entries) :
    entry.2 ≤ keyedSum entries entry.1 := by
  refine List.single_le_sum (by simp) _ ?_
  exact List.mem_map.mpr ⟨entry, by simp [member], rfl⟩

/-- A key without entries collects nothing. -/
theorem keyedSum_of_absent
    {entries : List (κ × Nat)}
    {key : κ}
    (absent : ∀ entry ∈ entries, entry.1 ≠ key) :
    keyedSum entries key = 0 := by
  have none : (entries.filter fun entry => entry.1 = key) = [] := by
    rw [List.filter_eq_nil_iff]
    intro entry member
    simpa using absent entry member
  simp [keyedSum, none]

/-- One weight is found once among distinct keys. -/
theorem sum_single
    {keys : List κ}
    (nodup : keys.Nodup)
    {key : κ}
    (member : key ∈ keys)
    (weight : Nat) :
    (keys.map fun other => if key = other then weight else 0).sum =
      weight := by
  induction keys with
  | nil => cases member
  | cons head rest inductionHypothesis =>
      obtain ⟨fresh, restNodup⟩ := List.nodup_cons.mp nodup
      rw [List.map_cons, List.sum_cons]
      by_cases same : key = head
      · subst head
        have others :
            (rest.map fun other => if key = other then weight else 0).sum =
              0 := by
          rw [List.sum_eq_zero]
          intro value inMap
          obtain ⟨other, inRest, rfl⟩ := List.mem_map.mp inMap
          refine if_neg ?_
          rintro rfl
          exact fresh inRest
        rw [if_pos rfl, others, Nat.add_zero]
      · have inRest : key ∈ rest :=
          (List.mem_cons.mp member).resolve_left same
        rw [if_neg same, Nat.zero_add]
        exact inductionHypothesis restNodup inRest

/-- Grouping by distinct covering keys keeps the total. -/
theorem sum_keyedSum
    {keys : List κ}
    (nodup : keys.Nodup)
    {entries : List (κ × Nat)}
    (covers : ∀ entry ∈ entries, entry.1 ∈ keys) :
    (keys.map (keyedSum entries)).sum = (entries.map Prod.snd).sum := by
  induction entries with
  | nil =>
      rw [List.map_nil, List.sum_nil, List.sum_eq_zero]
      intro value inMap
      obtain ⟨key, _, rfl⟩ := List.mem_map.mp inMap
      exact keyedSum_nil key
  | cons entry rest inductionHypothesis =>
      have restCovers : ∀ other ∈ rest, other.1 ∈ keys :=
        fun other member => covers other (by simp [member])
      have split :
          (keys.map (keyedSum (entry :: rest))).sum =
            (keys.map fun other =>
              if entry.1 = other then entry.2 else 0).sum +
              (keys.map (keyedSum rest)).sum := by
        rw [← List.sum_map_add]
        simp only [← keyedSum_cons]
      rw [split, sum_single nodup (covers entry (by simp)),
        inductionHypothesis restCovers]
      simp

end Foundation
