import ZanoP2pool.ShareChainRecovery

namespace ZanoP2pool

/-!
# The export order

Exports are sorted by height and then by identity.  The order is total and
transitive, so the sort of an export is determined by the exported set.
-/

namespace ShareChain

instance : Std.Total exportsBefore where
  total := by
    intro left right
    unfold exportsBefore
    rcases lt_trichotomy left.2.shareHeight.toNat
        right.2.shareHeight.toNat with lower | same | higher
    · exact .inl (.inl (UInt64.lt_iff_toNat_lt.mpr lower))
    · have sameHeight := UInt64.toNat_inj.mp same
      rcases le_total left.1 right.1 with below | above
      · exact .inl (.inr ⟨sameHeight, below⟩)
      · exact .inr (.inr ⟨sameHeight.symm, above⟩)
    · exact .inr (.inl (UInt64.lt_iff_toNat_lt.mpr higher))

instance : IsTrans (ShareId × Share) exportsBefore where
  trans := by
    intro first second third
    unfold exportsBefore
    rintro (lower | ⟨same, below⟩) (lower' | ⟨same', below'⟩)
    · exact .inl (UInt64.lt_trans lower lower')
    · exact .inl (same' ▸ lower)
    · exact .inl (same ▸ lower')
    · exact .inr ⟨same.trans same', le_trans below below'⟩

instance : Std.Total recordBefore where
  total := fun left right =>
    Std.Total.total (r := exportsBefore) (left.2.shareId, left.1)
      (right.2.shareId, right.1)

instance : IsTrans (Share × ReplayValidationRecord) recordBefore where
  trans := fun left middle right =>
    IsTrans.trans (r := exportsBefore) (left.2.shareId, left.1)
      (middle.2.shareId, middle.1) (right.2.shareId, right.1)

/-- What is exported earlier is not higher. -/
theorem exportsBefore_height
    {left right : ShareId × Share}
    (before : exportsBefore left right) :
    left.2.shareHeight.toNat ≤ right.2.shareHeight.toNat := by
  rcases before with lower | ⟨same, _⟩
  · exact le_of_lt (UInt64.lt_iff_toNat_lt.mp lower)
  · exact le_of_eq (congrArg UInt64.toNat same)

end ShareChain

end ZanoP2pool
