import Mathlib

namespace Foundation

/-!
# Loops over arrays with checked bounds

An access outside an array has no result.  A loop whose steps write disjoint
blocks writes each block from what the array held at the start.  A loop that
carries one entry along a path of slots moves every entry to its successor.
-/

/-- Write one entry of an array of fixed size. -/
def store
    {α : Type*}
    {size : Nat}
    (array : Vector α size)
    (index : Nat)
    (value : α) :
    Option (Vector α size) :=
  if within : index < size then some (array.set index value) else none

section Access

variable {α : Type*} {size : Nat}

/-- A write within bounds changes one entry. -/
theorem store_eq_some
    (array : Vector α size)
    {index : Nat}
    (within : index < size)
    (value : α) :
    store array index value = some (array.set index value) := by
  rw [store, dif_pos within]

theorem set_getElem
    (array : Vector α size)
    (slot other : Fin size)
    (value : α) :
    (array.set slot.val value slot.isLt)[other] =
      if other = slot then value else array[other] := by
  rw [Fin.getElem_fin, Vector.getElem_set, Fin.getElem_fin]
  by_cases same : other = slot
  · subst same
    rw [if_pos rfl, if_pos rfl]
  · rw [if_neg same, if_neg fun equal => same (Fin.ext equal.symm)]

theorem getElem?_eq_some
    (array : Vector α size)
    {index : Nat}
    (within : index < size) :
    array[index]? = some array[index] :=
  Vector.getElem?_eq_getElem within

end Access

section Blocks

variable {State Index Key Value : Type*}

/--
Steps that write disjoint blocks: each block is written from the values it had
at the start, and everything else is kept.
-/
theorem foldlM_blocks
    (read : State → Key → Value)
    {step : State → Index → Option State}
    {block : Index → Key → Prop}
    {written : Key → Value}
    {indices : List Index}
    {start : State}
    (steps :
      ∀ index ∈ indices, ∀ state,
        (∀ key, block index key → read state key = read start key) →
        ∃ next,
          step state index = some next ∧
            (∀ key, block index key → read next key = written key) ∧
            ∀ key, ¬ block index key → read next key = read state key)
    (disjoint :
      indices.Pairwise fun first second =>
        ∀ key, block first key → ¬ block second key) :
    ∃ final,
      indices.foldlM step start = some final ∧
        (∀ index ∈ indices, ∀ key, block index key →
          read final key = written key) ∧
        ∀ key, (∀ index ∈ indices, ¬ block index key) →
          read final key = read start key := by
  suffices general :
      ∀ state,
        (∀ index ∈ indices, ∀ key, block index key →
          read state key = read start key) →
        ∃ final,
          indices.foldlM step state = some final ∧
            (∀ index ∈ indices, ∀ key, block index key →
              read final key = written key) ∧
            ∀ key, (∀ index ∈ indices, ¬ block index key) →
              read final key = read state key from
    general start fun _ _ _ _ => rfl
  induction indices with
  | nil => exact fun state _ => ⟨state, rfl, by simp, fun _ _ => rfl⟩
  | cons index rest inductionHypothesis =>
      intro state untouched
      obtain ⟨apart, disjointRest⟩ := List.pairwise_cons.mp disjoint
      obtain ⟨next, stepped, writes, keeps⟩ :=
        steps index (List.mem_cons_self ..) state
          (untouched index (List.mem_cons_self ..))
      have nextUntouched :
          ∀ other ∈ rest, ∀ key, block other key →
            read next key = read start key := by
        intro other member key inside
        rw [keeps key fun both => apart other member key both inside]
        exact untouched other (List.mem_cons_of_mem index member) key inside
      obtain ⟨final, run, later, outside⟩ :=
        inductionHypothesis
          (fun other member => steps other (List.mem_cons_of_mem index member))
          disjointRest next nextUntouched
      refine ⟨final, ?_, ?_, ?_⟩
      · rw [List.foldlM_cons, stepped]
        exact run
      · intro other member key inside
        rcases List.mem_cons.mp member with rfl | member
        · rw [outside key fun third thirdMember =>
            apart third thirdMember key inside]
          exact writes key inside
        · exact later other member key inside
      · intro key free
        rw [outside key fun other member =>
            free other (List.mem_cons_of_mem index member),
          keeps key (free index (List.mem_cons_self ..))]

/-- Steps that change one entry each, at different slots. -/
theorem foldlM_updates
    {α : Type*}
    {size : Nat}
    {step : Vector α size → Index → Option (Vector α size)}
    {indices : List Index}
    (slot : Index → Nat)
    (value : Index → α → α)
    (array : Vector α size)
    (within : ∀ index ∈ indices, slot index < size)
    (steps :
      ∀ index ∈ indices, ∀ (state : Vector α size) (key : Fin size),
        key.val = slot index →
        step state index = store state key.val (value index state[key]))
    (different : indices.Pairwise fun first second => slot first ≠ slot second) :
    ∃ final : Vector α size,
      indices.foldlM step array = some final ∧
        (∀ index ∈ indices, ∀ key : Fin size, key.val = slot index →
          final[key] = value index array[key]) ∧
        ∀ key : Fin size, (∀ index ∈ indices, ¬ key.val = slot index) →
          final[key] = array[key] := by
  induction indices generalizing array with
  | nil => exact ⟨array, rfl, by simp, fun _ _ => rfl⟩
  | cons index rest inductionHypothesis =>
      obtain ⟨apart, differentRest⟩ := List.pairwise_cons.mp different
      let slotKey : Fin size := ⟨slot index, within index (List.mem_cons_self ..)⟩
      let changed := array.set slotKey.val (value index array[slotKey]) slotKey.isLt
      have stepped : step array index = some changed :=
        (steps index (List.mem_cons_self ..) array slotKey rfl).trans
          (store_eq_some array slotKey.isLt _)
      have away :
          ∀ key : Fin size, ¬ key.val = slot index → changed[key] = array[key] := by
        intro key other
        rw [set_getElem, if_neg fun same => other (congrArg Fin.val same)]
      obtain ⟨final, run, later, outside⟩ :=
        inductionHypothesis changed
          (fun other member => within other (List.mem_cons_of_mem index member))
          (fun other member => steps other (List.mem_cons_of_mem index member))
          differentRest
      refine ⟨final, ?_, ?_, ?_⟩
      · rw [List.foldlM_cons, stepped]
        exact run
      · intro other member key hit
        rcases List.mem_cons.mp member with rfl | member
        · have same : key = slotKey := Fin.ext hit
          rw [outside key fun third thirdMember both =>
              apart third thirdMember (hit.symm.trans both),
            set_getElem, if_pos same, same]
        · rw [later other member key hit,
            away key fun both => apart other member (both.symm.trans hit)]
      · intro key free
        rw [outside key fun other member =>
            free other (List.mem_cons_of_mem index member),
          away key (free index (List.mem_cons_self ..))]

end Blocks

section Walks

variable {α : Type*} {size : Nat}

/-- What a walk carries into one of its slots. -/
def carried
    (slot : Nat → Fin size)
    (array : Vector α size)
    (start : α) :
    Nat → α
  | 0 => start
  | index + 1 => array[slot index]

/--
A walk along different slots: each slot receives what the walk carried there, and
everything else is kept.
-/
theorem foldlM_walk
    {step : Vector α size × α → Nat → Option (Vector α size × α)}
    {count : Nat}
    (slot : Nat → Fin size)
    (turn : Nat → α → α)
    (array : Vector α size)
    (start : α)
    (steps :
      ∀ index < count, ∀ state,
        step state index =
          some (state.1.set (slot index).val (turn index state.2) (slot index).isLt,
            state.1[slot index]))
    (different :
      ∀ first < count, ∀ second < count, slot first = slot second → first = second) :
    ∃ final,
      (List.range count).foldlM step (array, start) =
          some (final, carried slot array start count) ∧
        (∀ index < count,
          final[slot index] = turn index (carried slot array start index)) ∧
        ∀ key, (∀ index < count, slot index ≠ key) → final[key] = array[key] := by
  induction count with
  | zero => exact ⟨array, rfl, by simp, fun _ _ => rfl⟩
  | succ count inductionHypothesis =>
      obtain ⟨before, run, moved, kept⟩ :=
        inductionHypothesis
          (fun index small => steps index (by omega))
          (fun first firstSmall second secondSmall =>
            different first (by omega) second (by omega))
      have unseen : ∀ index < count, slot index ≠ slot count := by
        intro index small same
        have equal := different index (by omega) count (by omega) same
        omega
      refine ⟨before.set (slot count).val
        (turn count (carried slot array start count)) (slot count).isLt, ?_, ?_, ?_⟩
      · rw [List.range_succ, List.foldlM_append, run]
        simp only [Option.bind_eq_bind, Option.bind_some, List.foldlM_cons,
          List.foldlM_nil, steps count (by omega), carried, kept (slot count) unseen]
        rfl
      · intro index small
        rw [set_getElem]
        by_cases last : index = count
        · rw [last, if_pos rfl]
        · have earlier : index < count := by omega
          rw [if_neg (unseen index earlier)]
          exact moved index earlier
      · intro key free
        rw [set_getElem, if_neg (free count (by omega)).symm]
        exact kept key fun index small => free index (by omega)

end Walks

end Foundation
