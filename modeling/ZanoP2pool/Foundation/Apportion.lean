import Mathlib

namespace Foundation

/-!
# Largest-remainder apportionment

An amount is divided over weighted items: every item gets the floor of its exact
share, and the units that remain go, one each, to the items that come first when
ordered by larger remainder and then by smaller key.  Who gets a unit is stated
by rank, so that nothing depends on the order in which the items are listed.
-/

section Rank

variable {α : Type} (before : α → α → Prop) [DecidableRel before]

/-- Number of items that come before one of them. -/
def rank (items : List α) (item : α) : Nat :=
  items.countP fun other => before other item

theorem rank_perm
    {items others : List α}
    (perm : items.Perm others)
    (item : α) :
    rank before items item = rank before others item :=
  perm.countP_eq _

variable {before} {items : List α}

/-- In a sorted list the first items are those of small rank. -/
theorem mem_take_iff_rank
    (asymmetric : ∀ left right, before left right → ¬ before right left)
    (sorted : items.Pairwise before)
    {item : α}
    (member : item ∈ items)
    (count : Nat) :
    item ∈ items.take count ↔ rank before items item < count := by
  have irreflexive : ∀ other, ¬ before other other :=
    fun other self => asymmetric other other self self
  induction items generalizing count with
  | nil => cases member
  | cons head rest inductionHypothesis =>
      obtain ⟨first, restSorted⟩ := List.pairwise_cons.mp sorted
      rcases List.mem_cons.mp member with rfl | inRest
      · have none : rank before (item :: rest) item = 0 := by
          refine List.countP_eq_zero.mpr fun other inItems => ?_
          rcases List.mem_cons.mp inItems with rfl | later
          · simpa using irreflexive other
          · simpa using asymmetric _ _ (first other later)
        rw [none]
        cases count with
        | zero => simp
        | succ count => simp
      · have differs : item ≠ head := by
          rintro rfl
          exact irreflexive item (first item inRest)
        have next : rank before (head :: rest) item =
            rank before rest item + 1 := by
          simp [rank, first item inRest]
        cases count with
        | zero => simp
        | succ count =>
            have shorter := inductionHypothesis restSorted inRest count
            rw [List.take_succ_cons, List.mem_cons, next, Nat.add_lt_add_iff_right]
            exact (or_iff_right differs).trans shorter

/-- As many items have a small rank as were asked for, if there are enough. -/
theorem countP_rank
    (asymmetric : ∀ left right, before left right → ¬ before right left)
    (sorted : items.Pairwise before)
    (count : Nat) :
    (items.countP fun item => rank before items item < count) =
      min count items.length := by
  have nodup : items.Nodup := by
    refine sorted.imp ?_
    rintro left right earlier rfl
    exact asymmetric left left earlier earlier
  have splits := List.take_append_drop count items
  have disjoint : List.Disjoint (items.take count) (items.drop count) := by
    rw [← splits] at nodup
    exact List.disjoint_of_nodup_append nodup
  have small :
      ∀ item ∈ items,
        (rank before items item < count ↔ item ∈ items.take count) :=
    fun item member =>
      (mem_take_iff_rank asymmetric sorted member count).symm
  have firstPart :
      ((items.take count).countP fun item =>
        rank before items item < count) = (items.take count).length := by
    refine List.countP_eq_length.mpr fun item member => ?_
    simpa using (small item (List.mem_of_mem_take member)).mpr member
  have lastPart :
      ((items.drop count).countP fun item =>
        rank before items item < count) = 0 := by
    refine List.countP_eq_zero.mpr fun item member => ?_
    rw [decide_eq_true_iff, small item (List.mem_of_mem_drop member)]
    exact fun early => disjoint early member
  have whole := congrArg
    (List.countP fun item => rank before items item < count) splits
  rw [List.countP_append, firstPart, lastPart] at whole
  rw [← whole, List.length_take, Nat.add_zero]

end Rank

/-- Counting is summing one for each item counted. -/
theorem sum_ite_one
    {α : Type}
    (items : List α)
    (counted : α → Prop)
    [DecidablePred counted] :
    (items.map fun item => if counted item then 1 else 0).sum =
      items.countP counted := by
  induction items with
  | nil => rfl
  | cons item rest inductionHypothesis =>
      by_cases holds : counted item
      · simp [holds, inductionHypothesis, Nat.add_comm]
      · simp [holds, inductionHypothesis]

section Apportion

variable {α κ : Type} [LinearOrder κ]
variable (key : α → κ) (weight : α → Nat) (amount : Nat)

/-- Total weight of the items. -/
def totalWeight (items : List α) : Nat :=
  (items.map weight).sum

/-- The whole units of an exact share. -/
def floorShare (total : Nat) (item : α) : Nat :=
  amount * weight item / total

/-- The part of an exact share that the floor leaves. -/
def remainder (total : Nat) (item : α) : Nat :=
  amount * weight item % total

/-- Larger remainders first, then smaller keys. -/
def Precedes (total : Nat) (left right : α) : Prop :=
  remainder weight amount total right < remainder weight amount total left ∨
    remainder weight amount total left = remainder weight amount total right ∧
      key left < key right

instance (total : Nat) : DecidableRel (Precedes key weight amount total) :=
  fun _ _ => inferInstanceAs (Decidable (_ ∨ _ ∧ _))

/-- Units that remain after every item got its floor. -/
def leftoverUnits (items : List α) : Nat :=
  amount -
    (items.map (floorShare weight amount (totalWeight weight items))).sum

/-- Items that get one of the remaining units. -/
def Favoured (items : List α) (item : α) : Prop :=
  rank (Precedes key weight amount (totalWeight weight items)) items item <
    leftoverUnits weight amount items

instance (items : List α) : DecidablePred (Favoured key weight amount items) :=
  fun _ => inferInstanceAs (Decidable (_ < _))

/-- What an item gets. -/
def apportioned (items : List α) (item : α) : Nat :=
  floorShare weight amount (totalWeight weight items) item +
    if Favoured key weight amount items item then 1 else 0

variable {key weight amount} {total : Nat} {items : List α}

theorem precedes_asymm
    (left right : α)
    (earlier : Precedes key weight amount total left right) :
    ¬ Precedes key weight amount total right left := by
  rintro (larger | ⟨_, smaller⟩)
  · rcases earlier with other | ⟨same, _⟩ <;> omega
  · rcases earlier with other | ⟨_, opposite⟩
    · omega
    · exact lt_asymm smaller opposite

theorem precedes_trans
    {first second third : α}
    (left : Precedes key weight amount total first second)
    (right : Precedes key weight amount total second third) :
    Precedes key weight amount total first third := by
  unfold Precedes at left right ⊢
  rcases left with larger | ⟨same, smaller⟩
  · left
    omega
  · rcases right with larger | ⟨alsoSame, alsoSmaller⟩
    · left
      omega
    · right
      exact ⟨same.trans alsoSame, smaller.trans alsoSmaller⟩

/-- Floors and remainders add up to the scaled weights. -/
theorem total_mul_sum_floorShare
    (items : List α) :
    total * (items.map (floorShare weight amount total)).sum +
        (items.map (remainder weight amount total)).sum =
      amount * totalWeight weight items := by
  induction items with
  | nil => simp [totalWeight]
  | cons item rest inductionHypothesis =>
      have division := Nat.div_add_mod (amount * weight item) total
      unfold totalWeight floorShare remainder at *
      simp only [List.map_cons, List.sum_cons, Nat.mul_add]
      omega

/-- The floors never exceed the amount. -/
theorem sum_floorShare_le
    (positive : 0 < totalWeight weight items) :
    (items.map (floorShare weight amount (totalWeight weight items))).sum ≤
      amount := by
  have scaled :=
    @total_mul_sum_floorShare α weight amount (totalWeight weight items) items
  refine Nat.le_of_mul_le_mul_left ?_ positive
  rw [Nat.mul_comm _ amount]
  omega

/-- Every item but one can be missing almost a unit, so few units remain. -/
theorem leftoverUnits_lt_length
    (positive : 0 < totalWeight weight items) :
    leftoverUnits weight amount items < items.length := by
  have scaled :=
    @total_mul_sum_floorShare α weight amount (totalWeight weight items) items
  have floors := @sum_floorShare_le α weight amount items positive
  have nonempty : items ≠ [] := by
    rintro rfl
    simp [totalWeight] at positive
  have remainders :
      (items.map (remainder weight amount (totalWeight weight items))).sum <
        items.length * totalWeight weight items := by
    have bounded := List.sum_lt_sum_of_ne_nil nonempty
      (remainder weight amount (totalWeight weight items))
      (fun _ => totalWeight weight items)
      fun item _ => Nat.mod_lt _ positive
    simpa using bounded
  refine @Nat.lt_of_mul_lt_mul_left (totalWeight weight items) _ _ ?_
  rw [leftoverUnits, Nat.mul_sub, Nat.mul_comm _ amount,
    Nat.mul_comm _ items.length]
  omega

/-- Distinct keys can be listed in the order of precedence. -/
theorem exists_precedes_sorted
    (weight : α → Nat)
    (amount total : Nat)
    (distinct : (items.map key).Nodup) :
    ∃ ordered : List α,
      ordered.Perm items ∧
        ordered.Pairwise (Precedes key weight amount total) := by
  let notAfter : α → α → Prop := fun left right =>
    toLex (OrderDual.toDual (remainder weight amount total left), key left) ≤
      toLex (OrderDual.toDual (remainder weight amount total right), key right)
  classical
  have perm := List.perm_insertionSort notAfter items
  have total' : Std.Total notAfter := ⟨fun left right => le_total _ _⟩
  have trans : IsTrans α notAfter := ⟨fun _ _ _ => le_trans⟩
  have sorted := List.pairwise_insertionSort notAfter items
  have nodup := (perm.map key).nodup_iff.mpr distinct
  refine ⟨_, perm, ?_⟩
  refine (sorted.and (List.pairwise_map.mp nodup)).imp ?_
  rintro left right ⟨earlier, differs⟩
  rcases Prod.Lex.toLex_le_toLex.mp earlier with larger | ⟨same, smaller⟩
  · exact .inl larger
  · exact .inr ⟨OrderDual.toDual_inj.mp same, lt_of_le_of_ne smaller differs⟩

/-- The remaining units are all given out. -/
theorem countP_favoured
    (distinct : (items.map key).Nodup)
    (positive : 0 < totalWeight weight items) :
    items.countP (Favoured key weight amount items) =
      leftoverUnits weight amount items := by
  obtain ⟨ordered, perm, sorted⟩ :=
    exists_precedes_sorted weight amount (totalWeight weight items) distinct
  have counted := countP_rank precedes_asymm sorted
    (leftoverUnits weight amount items)
  have few := @leftoverUnits_lt_length α weight amount items positive
  rw [perm.length_eq, Nat.min_eq_left few.le] at counted
  rw [← perm.countP_eq, ← counted]
  refine List.countP_congr fun item _ => ?_
  rw [rank_perm _ perm]
  exact decide_eq_true_iff.trans decide_eq_true_iff.symm

/-- Everything is given out and nothing more. -/
theorem sum_apportioned
    (distinct : (items.map key).Nodup)
    (positive : 0 < totalWeight weight items) :
    (items.map (apportioned key weight amount items)).sum = amount := by
  have floors := @sum_floorShare_le α weight amount items positive
  have units := @countP_favoured α κ _ key weight amount items distinct positive
  have splits :
      (items.map (apportioned key weight amount items)).sum =
        (items.map
          (floorShare weight amount (totalWeight weight items))).sum +
          (items.map fun item =>
            if Favoured key weight amount items item then 1 else 0).sum :=
    List.sum_map_add
  rw [splits, sum_ite_one, units, leftoverUnits]
  omega

/-- What comes before an item comes before everything after it. -/
theorem rank_le_of_precedes
    {first second : α}
    (earlier : Precedes key weight amount total first second) :
    rank (Precedes key weight amount total) items first ≤
      rank (Precedes key weight amount total) items second := by
  refine List.countP_mono_left fun item _ before => ?_
  rw [decide_eq_true_iff] at before ⊢
  exact precedes_trans before earlier

/-- An item with more weight never gets less. -/
theorem apportioned_mono
    {smaller larger : α}
    (lighter : weight smaller < weight larger) :
    apportioned key weight amount items smaller ≤
      apportioned key weight amount items larger := by
  generalize totalShape : totalWeight weight items = total
  have floors :
      floorShare weight amount total smaller ≤
        floorShare weight amount total larger :=
    Nat.div_le_div_right (Nat.mul_le_mul_left amount lighter.le)
  unfold apportioned
  rw [totalShape]
  by_cases favoured : Favoured key weight amount items smaller
  · rw [if_pos favoured]
    by_cases equal :
        floorShare weight amount total smaller =
          floorShare weight amount total larger
    · -- Equal floors leave the heavier item the larger remainder.
      have some : 0 < amount := by
        unfold Favoured leftoverUnits at favoured
        omega
      have scaled := Nat.mul_lt_mul_of_pos_left lighter some
      have smallerDivision := Nat.div_add_mod (amount * weight smaller) total
      have largerDivision := Nat.div_add_mod (amount * weight larger) total
      unfold floorShare at equal
      rw [equal] at smallerDivision
      have earlier : Precedes key weight amount total larger smaller := by
        left
        unfold remainder
        omega
      have alsoFavoured : Favoured key weight amount items larger := by
        unfold Favoured at favoured ⊢
        rw [totalShape] at favoured ⊢
        exact lt_of_le_of_lt (rank_le_of_precedes earlier) favoured
      rw [if_pos alsoFavoured]
      omega
    · omega
  · rw [if_neg favoured]
    omega

section Map

variable {β : Type} {embed : α → β} {otherKey : β → κ} {otherWeight : β → Nat}
variable (sameKey : ∀ item ∈ items, otherKey (embed item) = key item)
variable (sameWeight : ∀ item ∈ items, otherWeight (embed item) = weight item)

include sameWeight in
theorem totalWeight_map :
    totalWeight otherWeight (items.map embed) = totalWeight weight items := by
  rw [totalWeight, totalWeight, List.map_map]
  exact congrArg List.sum (List.map_congr_left sameWeight)

include sameWeight in
theorem leftoverUnits_map :
    leftoverUnits otherWeight amount (items.map embed) =
      leftoverUnits weight amount items := by
  rw [leftoverUnits, leftoverUnits, totalWeight_map sameWeight, List.map_map]
  refine congrArg (amount - List.sum ·) (List.map_congr_left fun item member => ?_)
  simp [floorShare, sameWeight item member]

include sameKey sameWeight in
theorem rank_precedes_map
    {item : α}
    (member : item ∈ items) :
    rank (Precedes otherKey otherWeight amount total) (items.map embed)
        (embed item) =
      rank (Precedes key weight amount total) items item := by
  rw [rank, rank, List.countP_map]
  refine List.countP_congr fun other inItems => ?_
  refine decide_eq_true_iff.trans (Iff.trans ?_ decide_eq_true_iff.symm)
  simp only [Precedes, remainder, sameKey item member, sameKey other inItems,
    sameWeight item member, sameWeight other inItems]

include sameKey sameWeight in
/-- Renaming the items changes nobody's part. -/
theorem apportioned_map
    {item : α}
    (member : item ∈ items) :
    apportioned otherKey otherWeight amount (items.map embed) (embed item) =
      apportioned key weight amount items item := by
  have favoured :
      Favoured otherKey otherWeight amount (items.map embed) (embed item) ↔
        Favoured key weight amount items item := by
    rw [Favoured, Favoured, totalWeight_map sameWeight,
      leftoverUnits_map sameWeight, rank_precedes_map sameKey sameWeight member]
  have floors :
      floorShare otherWeight amount
          (totalWeight otherWeight (items.map embed)) (embed item) =
        floorShare weight amount (totalWeight weight items) item := by
    rw [floorShare, floorShare, totalWeight_map sameWeight,
      sameWeight item member]
  rw [apportioned, apportioned, floors, if_congr favoured rfl rfl]

end Map

end Apportion

end Foundation
