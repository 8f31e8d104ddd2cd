import ZanoP2pool.Foundation.HashTree
import ZanoP2pool.MiningHeaderCommitment

namespace ZanoP2pool

open Foundation

/-!
# The transaction tree in its buffer

The source hashes the leaves into one vector and reduces it in place.  Here every
read and write checks its index, so that a result means that no index was out of
bounds, and the result is the root of the reference tree.
-/

variable {α : Type}

/-- Write one element of a buffer, if its index is in bounds. -/
def writeAt (buffer : List α) (index : Nat) (value : α) : Option (List α) :=
  if index < buffer.length then some (buffer.set index value) else none

/-- Hash pairs of leaves into the buffer, a number of times. -/
def hashPairsInto
    (hash : α → α → α)
    (hashes : List α) :
    Nat → Nat → Nat → List α → Option (List α)
  | 0, _, _, intermediate => some intermediate
  | steps + 1, source, dest, intermediate => do
      let left ← hashes[source]?
      let right ← hashes[source + 1]?
      let next ← writeAt intermediate dest (hash left right)
      hashPairsInto hash hashes steps (source + 2) (dest + 1) next

/-- Hash pairs of the buffer into its own front, a number of times. -/
def hashPairsInPlace
    (hash : α → α → α) :
    Nat → Nat → Nat → List α → Option (List α)
  | 0, _, _, intermediate => some intermediate
  | steps + 1, i, j, intermediate => do
      let left ← intermediate[i]?
      let right ← intermediate[i + 1]?
      let next ← writeAt intermediate j (hash left right)
      hashPairsInPlace hash steps (i + 2) (j + 1) next

/-- Halve the buffer until two digests are left at its front. -/
def reduceInPlace
    (hash : α → α → α)
    (cnt : Nat)
    (intermediate : List α) :
    Option (List α) :=
  if cnt > 2 then do
    let next ← hashPairsInPlace hash (cnt >>> 1) 0 0 intermediate
    reduceInPlace hash (cnt >>> 1) next
  else
    some intermediate
termination_by cnt
decreasing_by
  rw [Nat.shiftRight_eq_div_pow]
  omega

/-- Copy the first elements of a list to the front of a buffer. -/
def copyFront
    (count : Nat)
    (hashes intermediate : List α) :
    Option (List α) :=
  if count ≤ hashes.length ∧ count ≤ intermediate.length then
    some (hashes.take count ++ intermediate.drop count)
  else none

/-- The transaction tree with a checked buffer; `none` is an index out of bounds. -/
def transactionTreeHashInPlace
    (hash : α → α → α)
    (zero minerTxHash : α)
    (regularTxHashes : List α) :
    Option α :=
  let hashes := minerTxHash :: regularTxHashes
  let count := hashes.length
  if count = 1 then
    hashes[0]?
  else if count = 2 then do
    return hash (← hashes[0]?) (← hashes[1]?)
  else do
    let cnt := treeWidth count
    let direct := 2 * cnt - count
    let copied ← copyFront direct hashes (List.replicate cnt zero)
    let paired ← hashPairsInto hash hashes (cnt - direct) direct direct copied
    let reduced ← reduceInPlace hash cnt paired
    return hash (← reduced[0]?) (← reduced[1]?)

/--
The root of the reference tree: as many leaves as needed are hashed in pairs for
the others to be a power of two.
-/
def referenceRoot (join : α → α → α) (leaves : List α) : Option α :=
  if leaves.length ≤ 1 then
    leaves.head?
  else
    let levels := Nat.log2 (leaves.length - 1)
    let direct := 2 * 2 ^ levels - leaves.length
    perfectRoot join levels
      (leaves.take direct ++ joinPairs join (leaves.drop direct))

section Buffer

variable {hash : α → α → α}

/-- The front of a buffer after one more write. -/
theorem take_set_succ
    {buffer : List α}
    {index : Nat}
    (inside : index < buffer.length)
    (value : α) :
    (buffer.set index value).take (index + 1) =
      buffer.take index ++ [value] := by
  rw [List.take_add_one, List.take_set_of_le (Nat.le_refl index),
    List.getElem?_set_self inside]
  rfl

/-- The first of the pairs joined from some position on. -/
theorem joinPairs_from
    {items : List α}
    {source steps : Nat}
    (inside : source + 1 < items.length) :
    joinPairs hash ((items.drop source).take (2 * (steps + 1))) =
      hash items[source] items[source + 1] ::
        joinPairs hash ((items.drop (source + 2)).take (2 * steps)) := by
  rw [List.drop_eq_getElem_cons (by omega), List.drop_eq_getElem_cons inside,
    Nat.mul_succ]
  rfl

/-- Hashing leaves into the buffer joins them in pairs. -/
theorem hashPairsInto_eq
    {hashes : List α}
    {steps source dest : Nat}
    {intermediate : List α}
    (leaves : source + 2 * steps ≤ hashes.length)
    (room : dest + steps ≤ intermediate.length) :
    hashPairsInto hash hashes steps source dest intermediate =
      some (intermediate.take dest ++
        joinPairs hash ((hashes.drop source).take (2 * steps)) ++
          intermediate.drop (dest + steps)) := by
  induction steps generalizing source dest intermediate with
  | zero => simp [hashPairsInto]
  | succ steps inductionHypothesis =>
      rw [hashPairsInto, List.getElem?_eq_getElem (by omega),
        List.getElem?_eq_getElem (by omega)]
      simp only [Option.bind_eq_bind, Option.bind_some, writeAt]
      rw [if_pos (by omega), Option.bind_some,
        inductionHypothesis (by omega) (by rw [List.length_set]; omega),
        take_set_succ (by omega), List.drop_set_of_lt (by omega),
        joinPairs_from (by omega)]
      simp [Nat.add_assoc, Nat.add_comm 1 steps]

/-- Hashing in place joins the rest of the buffer in pairs. -/
theorem hashPairsInPlace_eq
    {steps j : Nat}
    {intermediate : List α}
    (room : 2 * j + 2 * steps ≤ intermediate.length) :
    hashPairsInPlace hash steps (2 * j) j intermediate =
      some (intermediate.take j ++
        joinPairs hash ((intermediate.drop (2 * j)).take (2 * steps)) ++
          intermediate.drop (j + steps)) := by
  induction steps generalizing j intermediate with
  | zero => simp [hashPairsInPlace]
  | succ steps inductionHypothesis =>
      rw [hashPairsInPlace, List.getElem?_eq_getElem (by omega),
        List.getElem?_eq_getElem (by omega)]
      simp only [Option.bind_eq_bind, Option.bind_some, writeAt]
      rw [if_pos (by omega), Option.bind_some]
      have next := @inductionHypothesis (j + 1)
        (intermediate.set j (hash intermediate[2 * j] intermediate[2 * j + 1]))
        (by rw [List.length_set]; omega)
      -- the next pair is read behind everything written so far
      rw [take_set_succ (by omega), List.drop_set_of_lt (by omega),
        List.drop_set_of_lt (by omega)] at next
      rw [Nat.mul_succ] at next
      rw [next, joinPairs_from (by omega)]
      simp [Nat.add_assoc, Nat.add_comm 1 steps]

/-- A buffer reduced in place ends with the two halves of the perfect tree. -/
theorem reduceInPlace_root
    {levels : Nat}
    {intermediate : List α}
    (room : 2 ^ (levels + 1) ≤ intermediate.length) :
    ∃ reduced left right,
      reduceInPlace hash (2 ^ (levels + 1)) intermediate = some reduced ∧
      reduced[0]? = some left ∧
      reduced[1]? = some right ∧
      perfectRoot hash (levels + 1) (intermediate.take (2 ^ (levels + 1))) =
        some (hash left right) := by
  induction levels generalizing intermediate with
  | zero =>
      match intermediate, room with
      | left :: right :: rest, _ =>
          refine ⟨left :: right :: rest, left, right, ?_, rfl, rfl, rfl⟩
          rw [reduceInPlace, if_neg (by norm_num)]
  | succ levels inductionHypothesis =>
      have positive := Nat.one_le_two_pow (n := levels)
      have half : 2 ^ (levels + 1 + 1) >>> 1 = 2 ^ (levels + 1) := by
        rw [Nat.shiftRight_eq_div_pow, Nat.pow_succ _ (levels + 1)]
        omega
      have double : 2 ^ (levels + 1 + 1) = 2 * 2 ^ (levels + 1) := by
        rw [Nat.pow_succ _ (levels + 1), mul_comm]
      have long : 2 ^ (levels + 1 + 1) > 2 := by
        rw [double, Nat.pow_succ]
        omega
      rw [double] at room
      have joined := @hashPairsInPlace_eq α hash (2 ^ (levels + 1)) 0
        intermediate (by omega)
      simp only [Nat.mul_zero, List.take_zero, List.drop_zero,
        List.nil_append, Nat.zero_add, ← double] at joined
      have joinedLength :
          (joinPairs hash (intermediate.take (2 ^ (levels + 1 + 1)))).length =
            2 ^ (levels + 1) := by
        rw [length_joinPairs, List.length_take, double]
        omega
      obtain ⟨reduced, left, right, ran, first, second, root⟩ :=
        @inductionHypothesis
          (joinPairs hash (intermediate.take (2 ^ (levels + 1 + 1))) ++
            intermediate.drop (2 ^ (levels + 1)))
          (by rw [List.length_append, joinedLength]; omega)
      refine ⟨reduced, left, right, ?_, first, second, ?_⟩
      · rw [reduceInPlace, if_pos long, half, joined]
        exact ran
      · rw [perfectRoot_joinPairs (by rw [List.length_take, double]; omega),
          ← root, List.take_left' joinedLength]

/-- The buffer before it is reduced: leaves in front, then pairs of leaves. -/
theorem paired_buffer
    {hashes : List α}
    {cnt : Nat}
    (below : cnt ≤ hashes.length)
    (above : hashes.length ≤ 2 * cnt)
    (zero : α) :
    let direct := 2 * cnt - hashes.length
    (do
      let copied ← copyFront direct hashes (List.replicate cnt zero)
      hashPairsInto hash hashes (cnt - direct) direct direct copied) =
      some (hashes.take direct ++
        joinPairs hash (hashes.drop direct)) := by
  intro direct
  have fits : direct ≤ hashes.length ∧
      direct ≤ (List.replicate cnt zero).length := by
    rw [List.length_replicate]
    omega
  have front : (hashes.take direct).length = direct := by
    rw [List.length_take]
    omega
  rw [copyFront, if_pos fits, Option.bind_eq_bind, Option.bind_some,
    hashPairsInto_eq (by omega)
      (by simp only [List.length_append, front, List.length_drop,
        List.length_replicate]; omega)]
  have whole : (hashes.drop direct).take (2 * (cnt - direct)) =
      hashes.drop direct := by
    rw [List.take_of_length_le]
    rw [List.length_drop]
    omega
  have rest :
      (hashes.take direct ++ (List.replicate cnt zero).drop direct).drop
        (direct + (cnt - direct)) = [] := by
    simp only [List.drop_eq_nil_iff, List.length_append, front,
      List.length_drop, List.length_replicate]
    omega
  have kept :
      (hashes.take direct ++ (List.replicate cnt zero).drop direct).take
        direct = hashes.take direct :=
    List.take_left' front
  rw [whole, rest, kept, List.append_nil]

end Buffer

section Reference

variable {hash : α → α → α} {leaves : List α}

/-- The power of two that a number of leaves is spread over. -/
theorem referenceWidth
    {count : Nat}
    (several : 2 ≤ count) :
    2 ^ Nat.log2 (count - 1) < count ∧
      count ≤ 2 * 2 ^ Nat.log2 (count - 1) := by
  have nonzero : count - 1 ≠ 0 := by omega
  have lower := Nat.log2_self_le nonzero
  have upper : count - 1 < 2 ^ (Nat.log2 (count - 1) + 1) :=
    (Nat.log2_lt nonzero).mp (by omega)
  rw [Nat.pow_succ] at upper
  omega

/-- The source computes the root of the reference tree. -/
theorem transactionTreeHashInPlace_eq
    (zero minerTxHash : α)
    {regularTxHashes : List α}
    (fits : regularTxHashes.length + 1 < 2 ^ 64) :
    transactionTreeHashInPlace hash zero minerTxHash regularTxHashes =
      referenceRoot hash (minerTxHash :: regularTxHashes) := by
  unfold transactionTreeHashInPlace referenceRoot
  match regularTxHashes, fits with
  | [], _ => rfl
  | [other], _ => rfl
  | first :: second :: rest, fits =>
      generalize leaved : minerTxHash :: first :: second :: rest = hashes
      have several : 3 ≤ hashes.length := by
        rw [← leaved]
        simp
      have bounded : hashes.length < 2 ^ 64 := by
        rw [← leaved]
        simpa using fits
      obtain ⟨below, above⟩ := referenceWidth (by omega : 2 ≤ hashes.length)
      obtain ⟨levels, width, _⟩ := treeLayout several bounded
      have log := treeWidth_eq (by omega) bounded
      have sameLevels : Nat.log2 (hashes.length - 1) = levels + 1 :=
        Nat.pow_right_injective (Nat.le_refl 2) (log.symm.trans width)
      rw [sameLevels] at below above
      have paired := @paired_buffer α hash hashes _ below.le above zero
      have room :
          (hashes.take (2 * 2 ^ (levels + 1) - hashes.length) ++
            joinPairs hash
              (hashes.drop (2 * 2 ^ (levels + 1) - hashes.length))).length =
            2 ^ (levels + 1) := by
        rw [List.length_append, length_joinPairs, List.length_take,
          List.length_drop]
        omega
      obtain ⟨reduced, left, right, ran, readLeft, readRight, root⟩ :=
        @reduceInPlace_root α hash _ _ room.ge
      rw [List.take_of_length_le room.le] at root
      simp only [sameLevels, width]
      rw [if_neg (by omega), if_neg (by omega), if_neg (by omega), root]
      obtain ⟨copied, wrote, joined⟩ := Option.bind_eq_some_iff.mp paired
      simp only [wrote, joined, ran, readLeft, readRight, Option.bind_eq_bind,
        Option.bind_some]
      rfl

/-- A homomorphism maps the reference root to the reference root. -/
theorem map_referenceRoot
    {β : Type}
    {joinImage : β → β → β}
    {image : α → β}
    (natural :
      ∀ left right, image (hash left right) =
        joinImage (image left) (image right))
    (leaves : List α) :
    (referenceRoot hash leaves).map image =
      referenceRoot joinImage (leaves.map image) := by
  unfold referenceRoot
  rw [List.length_map]
  by_cases few : leaves.length ≤ 1
  · rw [if_pos few, if_pos few, List.head?_map]
  · rw [if_neg few, if_neg few, map_perfectRoot natural, List.map_append,
      map_joinPairs natural, List.map_take, List.map_drop]

/-- A nonempty list of leaves has a reference root. -/
theorem referenceRoot_isSome
    (nonempty : leaves ≠ []) :
    ∃ root, referenceRoot hash leaves = some root := by
  unfold referenceRoot
  by_cases few : leaves.length ≤ 1
  · rw [if_pos few]
    exact ⟨leaves.head nonempty, List.head?_eq_some_head nonempty⟩
  · rw [if_neg few]
    obtain ⟨below, above⟩ := referenceWidth (by omega : 2 ≤ leaves.length)
    apply perfectRoot_isSome
    rw [List.length_append, length_joinPairs, List.length_take,
      List.length_drop]
    omega

/-- Joined pairs of an even list hold its leaves in order. -/
theorem flatMap_joinPairs
    {nodes : List (HashTree α)}
    (even : nodes.length % 2 = 0) :
    (joinPairs HashTree.node nodes).flatMap HashTree.leaves =
      nodes.flatMap HashTree.leaves := by
  induction nodes using pairMessages.induct with
  | case1 => rfl
  | case2 node => simp at even
  | case3 left right rest inductionHypothesis =>
      simp only [List.length_cons] at even
      simp [HashTree.leaves, inductionHypothesis (by omega)]

/-- A perfect tree holds the leaves of its nodes in order. -/
theorem perfectRoot_leaves
    {levels : Nat}
    {nodes : List (HashTree α)}
    (length : nodes.length = 2 ^ levels)
    {tree : HashTree α}
    (built : perfectRoot HashTree.node levels nodes = some tree) :
    tree.leaves = nodes.flatMap HashTree.leaves := by
  induction levels generalizing nodes tree with
  | zero =>
      match nodes, length with
      | [node], _ =>
          cases built
          simp
  | succ levels inductionHypothesis =>
      rw [Nat.pow_succ] at length
      obtain ⟨left, leftBuilt, rest⟩ := Option.bind_eq_some_iff.mp built
      obtain ⟨right, rightBuilt, joined⟩ := Option.bind_eq_some_iff.mp rest
      cases joined
      rw [HashTree.leaves,
        inductionHypothesis (by rw [List.length_take]; omega) leftBuilt,
        inductionHypothesis (by rw [List.length_drop]; omega) rightBuilt,
        ← List.flatMap_append, List.take_append_drop]

/-- The reference tree of leaves holds them in order. -/
theorem referenceRoot_leaves
    {tree : HashTree α}
    (built :
      referenceRoot HashTree.node (leaves.map HashTree.leaf) = some tree) :
    tree.leaves = leaves := by
  have each : (leaves.map HashTree.leaf).flatMap HashTree.leaves = leaves := by
    rw [List.flatMap_map]
    exact List.flatMap_singleton' leaves
  unfold referenceRoot at built
  rw [List.length_map] at built
  by_cases few : leaves.length ≤ 1
  · rw [if_pos few] at built
    match leaves, few with
    | [leaf], _ =>
        cases built
        rfl
  · rw [if_neg few] at built
    obtain ⟨below, above⟩ := referenceWidth (by omega : 2 ≤ leaves.length)
    rw [perfectRoot_leaves ?_ built, List.flatMap_append, flatMap_joinPairs,
      ← List.flatMap_append, List.take_append_drop, each]
    · rw [List.length_drop, List.length_map]
      omega
    · rw [List.length_append, length_joinPairs, List.length_take,
        List.length_drop, List.length_map]
      omega

/-- Leaf lists of one length have trees of one shape. -/
theorem referenceRoot_shape
    {others : List α}
    (lengths : leaves.length = others.length)
    {tree other : HashTree α}
    (built :
      referenceRoot HashTree.node (leaves.map HashTree.leaf) = some tree)
    (otherBuilt :
      referenceRoot HashTree.node (others.map HashTree.leaf) = some other) :
    tree.shape = other.shape := by
  have shapes (leaves : List α) :
      (leaves.map HashTree.leaf).map HashTree.shape =
        List.replicate leaves.length (HashTree.leaf ()) := by
    rw [List.map_map]
    exact List.map_const'
  have natural (left right : HashTree α) :
      (HashTree.node left right).shape =
        HashTree.node left.shape right.shape := rfl
  have first := map_referenceRoot natural (leaves.map HashTree.leaf)
  have second := map_referenceRoot natural (others.map HashTree.leaf)
  rw [shapes, built] at first
  rw [shapes, otherBuilt, ← lengths, ← first] at second
  exact (Option.some.inj second).symm

/-- The tree of the leaves themselves, with its root. -/
theorem exists_referenceTree
    (hash : α → α → α)
    (nonempty : leaves ≠ []) :
    ∃ tree,
      referenceRoot HashTree.node (leaves.map HashTree.leaf) = some tree ∧
      tree.leaves = leaves ∧
      referenceRoot hash leaves = some (tree.root hash) := by
  obtain ⟨tree, built⟩ :=
    @referenceRoot_isSome _ HashTree.node (leaves.map HashTree.leaf)
      (by simpa using nonempty)
  have natural (left right : HashTree α) :
      (HashTree.node left right).root hash =
        hash (left.root hash) (right.root hash) := rfl
  have rooted := map_referenceRoot natural (leaves.map HashTree.leaf)
  have restored :
      (leaves.map HashTree.leaf).map (HashTree.root hash) = leaves := by
    rw [List.map_map]
    exact List.map_id leaves
  rw [built, restored] at rooted
  exact ⟨tree, built, referenceRoot_leaves built, rooted.symm⟩

/-- The width of the reference tree is the greatest power of two below the count. -/
theorem isGreatest_referenceWidth
    {count : Nat}
    (several : 2 ≤ count) :
    IsGreatest { width | (∃ levels, width = 2 ^ levels) ∧ width < count }
      (2 ^ Nat.log2 (count - 1)) := by
  obtain ⟨below, above⟩ := referenceWidth several
  refine ⟨⟨⟨_, rfl⟩, below⟩, ?_⟩
  rintro _ ⟨⟨levels, rfl⟩, less⟩
  have fewer : levels < Nat.log2 (count - 1) + 1 := by
    rw [← Nat.pow_lt_pow_iff_right (a := 2) (by omega), Nat.pow_succ]
    omega
  exact Nat.pow_le_pow_right (by omega) (Nat.le_of_lt_succ fewer)

end Reference

section Digests

variable {backend : Backend}

/-- Pairs of digests are joined by hashing their bytes. -/
theorem pairUp_eq_joinPairs
    (layer : List Hash256) :
    pairUp backend.cnFastHash pairBytes layer =
      joinPairs (hashPair backend) layer := by
  induction layer using pairMessages.induct with
  | case1 => rfl
  | case2 hash => rfl
  | case3 left right rest inductionHypothesis =>
      rw [joinPairs_cons, ← inductionHypothesis]
      rfl

/-- Reducing a layer level by level leaves the halves of the perfect tree. -/
theorem perfectRoot_reduceLayers
    {levels : Nat}
    {layer : List Hash256}
    (length : layer.length = 2 ^ (levels + 1)) :
    perfectRoot (hashPair backend) (levels + 1) layer =
      some (hashLastPair backend
        (reduceLayers backend.cnFastHash pairBytes levels layer)) := by
  induction levels generalizing layer with
  | zero =>
      match layer, length with
      | [left, right], _ => rfl
  | succ levels inductionHypothesis =>
      rw [perfectRoot_joinPairs length, ← pairUp_eq_joinPairs, reduceLayers]
      apply inductionHypothesis
      rw [length_pairUp, length, Nat.pow_succ _ (levels + 1)]
      omega

/-- The tree of a mining header is the reference tree of its transactions. -/
theorem referenceRoot_transactionTreeHash
    (minerTxHash : Hash256)
    {regularTxHashes : List Hash256}
    (fits : regularTxHashes.length + 1 < 2 ^ 64) :
    referenceRoot (hashPair backend) (minerTxHash :: regularTxHashes) =
      some (transactionTreeHash backend minerTxHash regularTxHashes) := by
  unfold referenceRoot transactionTreeHash
  match regularTxHashes, fits with
  | [], _ => rfl
  | [other], _ => rfl
  | first :: second :: rest, fits =>
      generalize leaved : minerTxHash :: first :: second :: rest = hashes
      have several : 3 ≤ hashes.length := by
        rw [← leaved]
        simp
      have bounded : hashes.length < 2 ^ 64 := by
        rw [← leaved]
        simpa using fits
      obtain ⟨levels, width, direct, _, whole⟩ := treeLayout several bounded
      have sameLevels : Nat.log2 (hashes.length - 1) = levels + 1 :=
        Nat.pow_right_injective (Nat.le_refl 2)
          ((treeWidth_eq (by omega) bounded).symm.trans width)
      simp only [sameLevels]
      rw [if_neg (by omega), if_neg (by omega), if_neg (by omega), ← width,
        pairUp_eq_joinPairs]
      have length :
          (hashes.take (2 * treeWidth hashes.length - hashes.length) ++
            joinPairs (hashPair backend)
              (hashes.drop
                (2 * treeWidth hashes.length - hashes.length))).length =
            2 ^ (levels + 1) := by
        rw [List.length_append, length_joinPairs, List.length_take,
          List.length_drop, Nat.min_eq_left direct, whole, width]
      have enough : levels ≤ treeWidth hashes.length := by
        rw [width]
        exact (Nat.lt_two_pow_self.trans (Nat.pow_lt_pow_right (by norm_num)
          (Nat.lt_succ_self levels))).le
      rw [perfectRoot_reduceLayers length, (reduceToPair_eq length enough).1]

end Digests

/--
The transaction tree, reduced in place, never reads or writes out of bounds and
has the root of the reference tree, into which every leaf enters once and in order.
Other leaves of the same number with this root make the hash collide.  On digests
it is the tree whose root a mining header commits to.
-/
theorem transactionTreeHash_reference
    (hash : α → α → α)
    (zero minerTxHash : α)
    (regularTxHashes : List α)
    (fits : regularTxHashes.length + 1 < 2 ^ 64) :
    let leaves := minerTxHash :: regularTxHashes
    (∀ (backend : Backend) (digest : Hash256) (digests : List Hash256),
      digests.length = regularTxHashes.length →
        transactionTreeHashInPlace (hashPair backend) 0 digest digests =
          some (transactionTreeHash backend digest digests)) ∧
    ∃ tree : HashTree α,
      tree.leaves = leaves ∧
      transactionTreeHashInPlace hash zero minerTxHash regularTxHashes =
        some (tree.root hash) ∧
      referenceRoot hash leaves = some (tree.root hash) ∧
      (2 ≤ leaves.length →
        IsGreatest
          { width | (∃ levels, width = 2 ^ levels) ∧ width < leaves.length }
          (2 ^ Nat.log2 (leaves.length - 1))) ∧
      ∀ (otherMinerTxHash : α) (otherRegularTxHashes : List α),
        otherRegularTxHashes.length = regularTxHashes.length →
        otherMinerTxHash :: otherRegularTxHashes ≠ leaves →
        transactionTreeHashInPlace hash zero otherMinerTxHash
            otherRegularTxHashes = some (tree.root hash) →
          ∃ other : HashTree α,
            other.leaves = otherMinerTxHash :: otherRegularTxHashes ∧
            other.root hash = tree.root hash ∧
            ∃ pair ∈ tree.hashedPairs hash,
              ∃ otherPair ∈ other.hashedPairs hash,
                pair ≠ otherPair ∧
                hash pair.1 pair.2 = hash otherPair.1 otherPair.2 := by
  intro leaves
  obtain ⟨tree, built, held, rooted⟩ :=
    @exists_referenceTree α leaves hash (List.cons_ne_nil _ _)
  refine ⟨?_, tree, held, ?_, rooted, isGreatest_referenceWidth, ?_⟩
  · intro backend digest digests lengths
    rw [← lengths] at fits
    rw [transactionTreeHashInPlace_eq 0 digest fits,
      referenceRoot_transactionTreeHash digest fits]
  · rw [transactionTreeHashInPlace_eq zero minerTxHash fits]
    exact rooted
  · intro otherMinerTxHash otherRegularTxHashes lengths different same
    obtain ⟨other, otherBuilt, otherHeld, otherRooted⟩ :=
      @exists_referenceTree α (otherMinerTxHash :: otherRegularTxHashes) hash
        (List.cons_ne_nil _ _)
    rw [transactionTreeHashInPlace_eq zero otherMinerTxHash
      (by rw [lengths]; exact fits), otherRooted] at same
    have roots : other.root hash = tree.root hash := Option.some.inj same
    have shapes : tree.shape = other.shape :=
      referenceRoot_shape (by simp [leaves, lengths]) built otherBuilt
    refine ⟨other, otherHeld, roots, ?_⟩
    rcases HashTree.eq_or_collision shapes roots.symm with equal | collision
    · rw [← otherHeld, ← equal] at different
      exact absurd held different
    · exact collision

/-- Three leaves under a hash that is not injective. -/
theorem transactionTreeHash_reference_three :
    ∃ tree : HashTree Nat,
      tree.leaves = [1, 2, 3] ∧
      transactionTreeHashInPlace (· + 2 * ·) 0 1 [2, 3] =
        some (tree.root (· + 2 * ·)) := by
  obtain ⟨_, tree, held, computed, _⟩ :=
    transactionTreeHash_reference (fun left right => left + 2 * right) 0 1
      [2, 3] (by decide)
  exact ⟨tree, held, computed⟩

end ZanoP2pool
