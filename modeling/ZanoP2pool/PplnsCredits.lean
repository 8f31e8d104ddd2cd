import ZanoP2pool.Foundation.KeyedSum
import ZanoP2pool.Foundation.TreeMap
import ZanoP2pool.Pplns

namespace ZanoP2pool

open Foundation

/-!
# Work collected by miner

Both the window and the reward allocation collect work in one row per miner and
attach the payout identity of the miner to it.  What the rows hold is stated
once, for a list of credits in the order in which they were collected.
-/

/-- An amount of work credited to a miner. -/
structure Credit where
  minerId : MinerId
  payout : Option PayoutPublicKeys
  work : Nat
  deriving Repr, DecidableEq

/-- The credited amounts by miner. -/
def creditWorks (credits : List Credit) : List (MinerId × Nat) :=
  credits.map fun credit => (credit.minerId, credit.work)

/-- The collected rows agree with a list of credits. -/
structure Credits
    (credits : List Credit)
    (credited : Std.ExtTreeMap MinerId CreditedWork) :
    Prop where
  work :
    ∀ ⦃minerId : MinerId⦄ ⦃row : CreditedWork⦄,
      credited[minerId]? = some row →
        row.work = keyedSum (creditWorks credits) minerId
  payout :
    ∀ ⦃minerId : MinerId⦄ ⦃row : CreditedWork⦄,
      credited[minerId]? = some row → ∀ payout,
        row.payout = some payout ↔
          ∃ credit ∈ credits,
            credit.minerId = minerId ∧ credit.payout = some payout
  present :
    ∀ minerId : MinerId,
      (∃ row, credited[minerId]? = some row) ↔
        ∃ credit ∈ credits, credit.minerId = minerId

/-- Credits of one miner never carry two different payouts. -/
def AgreeingPayouts (credits : List Credit) : Prop :=
  ∀ first ∈ credits, ∀ second ∈ credits, ∀ payout other,
    first.payout = some payout → second.payout = some other →
    first.minerId = second.minerId → payout = other

theorem AgreeingPayouts.subset
    {credits larger : List Credit}
    (agree : AgreeingPayouts larger)
    (contained : ∀ credit ∈ credits, credit ∈ larger) :
    AgreeingPayouts credits :=
  fun first firstMember second secondMember =>
    agree first (contained first firstMember) second
      (contained second secondMember)

namespace Credits

variable {backend : Backend} {credits : List Credit}
variable {credited : Std.ExtTreeMap MinerId CreditedWork}

theorem empty : Credits [] ∅ := by
  constructor <;> simp

/-- The row of a miner before its next credit. -/
theorem row_before
    (holds : Credits credits credited)
    (minerId : MinerId) :
    (credited[minerId]?.getD {}).work =
        keyedSum (creditWorks credits) minerId ∧
      ∀ payout,
        (credited[minerId]?.getD {}).payout = some payout ↔
          ∃ credit ∈ credits,
            credit.minerId = minerId ∧ credit.payout = some payout := by
  cases found : credited[minerId]? with
  | some row => exact ⟨holds.work found, holds.payout found⟩
  | none =>
      have absent : ∀ credit ∈ credits, credit.minerId ≠ minerId := by
        intro credit member same
        obtain ⟨row, present⟩ :=
          (holds.present minerId).mpr ⟨credit, member, same⟩
        rw [found] at present
        cases present
      constructor
      · rw [keyedSum_of_absent]
        · rfl
        · intro entry member
          obtain ⟨credit, inCredits, rfl⟩ := List.mem_map.mp member
          exact absent credit inCredits
      · intro payout
        constructor
        · intro stored
          cases stored
        · rintro ⟨credit, member, same, _⟩
          exact (absent credit member same).elim

section Next

variable (holds : Credits credits credited) {credit : Credit}
variable (agree : AgreeingPayouts (credits ++ [credit]))

include holds agree in
/-- The payout of the next credit cannot differ from the stored one. -/
theorem stored_agrees
    {payout : PayoutPublicKeys}
    (carried : credit.payout = some payout)
    {stored : PayoutPublicKeys}
    (before :
      (credited[credit.minerId]?.getD {}).payout = some stored) :
    stored = payout := by
  obtain ⟨earlier, member, sameMiner, earlierPayout⟩ :=
    ((holds.row_before credit.minerId).2 stored).mp before
  exact agree earlier (by simp [member]) credit (by simp) stored payout
    earlierPayout carried sameMiner

include holds in
/-- A next credit that agrees with the stored payout agrees with all of them. -/
theorem agreeing_append
    (before : AgreeingPayouts credits)
    (agrees :
      ∀ payout stored, credit.payout = some payout →
        (credited[credit.minerId]?.getD {}).payout = some stored →
          stored = payout) :
    AgreeingPayouts (credits ++ [credit]) := by
  have withLast :
      ∀ earlier ∈ credits, ∀ payout other,
        earlier.payout = some payout → credit.payout = some other →
        earlier.minerId = credit.minerId → payout = other := by
    intro earlier member payout other carried otherCarried sameMiner
    exact agrees other payout otherCarried
      (((holds.row_before credit.minerId).2 payout).mpr
        ⟨earlier, member, sameMiner, carried⟩)
  intro first firstMember second secondMember payout other carried
    otherCarried sameMiner
  simp only [List.mem_append, List.mem_singleton] at firstMember secondMember
  rcases firstMember with firstMember | rfl
  · rcases secondMember with secondMember | rfl
    · exact before first firstMember second secondMember payout other carried
        otherCarried sameMiner
    · exact withLast first firstMember payout other carried otherCarried
        sameMiner
  · rcases secondMember with secondMember | rfl
    · exact (withLast second secondMember other payout otherCarried carried
        sameMiner.symm).symm
    · rw [carried] at otherCarried
      exact Option.some.inj otherCarried

include holds agree in
/-- Collecting one more credit extends the rows. -/
theorem insert
    {merged : CreditedWork}
    (work :
      merged.work = (credited[credit.minerId]?.getD {}).work + credit.work)
    (payout :
      merged.payout =
        credit.payout.or (credited[credit.minerId]?.getD {}).payout) :
    Credits (credits ++ [credit])
      (credited.insert credit.minerId merged) := by
  have sums :
      ∀ minerId,
        keyedSum (creditWorks (credits ++ [credit])) minerId =
          keyedSum (creditWorks credits) minerId +
            if credit.minerId = minerId then credit.work else 0 := by
    intro minerId
    rw [creditWorks, List.map_append, keyedSum_append]
    simp [creditWorks, keyedSum_cons]
  have mergedPayout :
      ∀ candidate,
        merged.payout = some candidate ↔
          credit.payout = some candidate ∨
            (credited[credit.minerId]?.getD {}).payout = some candidate := by
    intro candidate
    rw [payout]
    cases carried : credit.payout with
    | none => simp
    | some given =>
        simp only [Option.some_or]
        constructor
        · exact .inl
        · rintro (same | before)
          · exact same
          · rw [holds.stored_agrees agree carried before]
  constructor
  · intro minerId row found
    rw [sums]
    rcases getElem?_insert_iff.mp found with ⟨rfl, rfl⟩ | ⟨other, present⟩
    · rw [work, (holds.row_before credit.minerId).1, if_pos rfl]
    · rw [holds.work present, if_neg (Ne.symm other), Nat.add_zero]
  · intro minerId row found candidate
    rcases getElem?_insert_iff.mp found with ⟨rfl, rfl⟩ | ⟨other, present⟩
    · rw [mergedPayout candidate,
        (holds.row_before credit.minerId).2 candidate]
      simp only [List.mem_append, List.mem_singleton, or_and_right, exists_or,
        exists_eq_left, true_and]
      exact or_comm
    · rw [holds.payout present candidate]
      simp [Ne.symm other]
  · intro minerId
    constructor
    · rintro ⟨row, found⟩
      rcases getElem?_insert_iff.mp found with ⟨rfl, _⟩ | ⟨_, present⟩
      · exact ⟨credit, by simp, rfl⟩
      · obtain ⟨earlier, member, same⟩ :=
          (holds.present minerId).mp ⟨row, present⟩
        exact ⟨earlier, by simp [member], same⟩
    · rintro ⟨collected, member, rfl⟩
      by_cases same : collected.minerId = credit.minerId
      · exact ⟨merged, getElem?_insert_iff.mpr (.inl ⟨same, rfl⟩)⟩
      · have earlier : collected ∈ credits := by
          rcases List.mem_append.mp member with earlier | last
          · exact earlier
          · rw [List.mem_singleton.mp last] at same
            exact (same rfl).elim
        obtain ⟨row, present⟩ :=
          (holds.present collected.minerId).mpr ⟨collected, earlier, rfl⟩
        exact ⟨row, getElem?_insert_iff.mpr (.inr ⟨same, present⟩)⟩

end Next

/-- Credits with the same works and payouts by miner give the same rows. -/
theorem unique
    {other : List Credit}
    {otherCredited : Std.ExtTreeMap MinerId CreditedWork}
    (holds : Credits credits credited)
    (otherHolds : Credits other otherCredited)
    (sameWork :
      ∀ minerId,
        keyedSum (creditWorks credits) minerId =
          keyedSum (creditWorks other) minerId)
    (samePayout :
      ∀ minerId payout,
        (∃ credit ∈ credits,
          credit.minerId = minerId ∧ credit.payout = some payout) ↔
          ∃ credit ∈ other,
            credit.minerId = minerId ∧ credit.payout = some payout)
    (sameMiners :
      ∀ minerId,
        (∃ credit ∈ credits, credit.minerId = minerId) ↔
          ∃ credit ∈ other, credit.minerId = minerId) :
    credited = otherCredited := by
  refine Std.ExtTreeMap.ext_getElem? fun minerId => ?_
  have present :=
    (holds.present minerId).trans
      ((sameMiners minerId).trans (otherHolds.present minerId).symm)
  cases found : credited[minerId]? with
  | none =>
      cases otherFound : otherCredited[minerId]? with
      | none => rfl
      | some row =>
          obtain ⟨_, absent⟩ := present.mpr ⟨row, otherFound⟩
          rw [found] at absent
          cases absent
  | some row =>
      obtain ⟨otherRow, otherFound⟩ := present.mp ⟨row, found⟩
      have works : row.work = otherRow.work := by
        rw [holds.work found, otherHolds.work otherFound, sameWork]
      have payouts : row.payout = otherRow.payout := by
        refine Option.ext fun payout => ?_
        rw [holds.payout found payout, samePayout,
          otherHolds.payout otherFound payout]
      rw [otherFound]
      cases row
      cases otherRow
      simp_all

/-- Each miner has one row. -/
theorem nodup_miners
    (credited : Std.ExtTreeMap MinerId CreditedWork) :
    (credited.toList.map Prod.fst).Nodup := by
  rw [Std.ExtTreeMap.map_fst_toList_eq_keys]
  exact Std.ExtTreeMap.nodup_keys

/-- The rows collect all the credited work. -/
theorem sum_work
    (holds : Credits credits credited) :
    (credited.toList.map fun item => item.2.work).sum =
      ((creditWorks credits).map Prod.snd).sum := by
  have works :
      ∀ item ∈ credited.toList,
        item.2.work = keyedSum (creditWorks credits) item.1 :=
    fun item member =>
      holds.work (Std.ExtTreeMap.mem_toList_iff_getElem?_eq_some.mp member)
  have covers :
      ∀ entry ∈ creditWorks credits,
        entry.1 ∈ credited.toList.map Prod.fst := by
    intro entry member
    obtain ⟨credit, inCredits, rfl⟩ := List.mem_map.mp member
    obtain ⟨row, stored⟩ :=
      (holds.present credit.minerId).mpr ⟨credit, inCredits, rfl⟩
    exact List.mem_map.mpr ⟨(credit.minerId, row),
      Std.ExtTreeMap.mem_toList_iff_getElem?_eq_some.mpr stored, rfl⟩
  rw [← sum_keyedSum (nodup_miners credited) covers, List.map_map]
  exact congrArg List.sum (List.map_congr_left works)

end Credits

end ZanoP2pool
